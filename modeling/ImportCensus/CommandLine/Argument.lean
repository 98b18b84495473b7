import ImportCensus.Text.Digit

/-!
# Arguments of a command

The arguments of a command are options with their values, and operands.  An option is known by
its name, which may be cut short as long as no other name begins the same way, and a value may be
joined to it by an equals sign.  Behind a separator of two hyphens everything is an operand.
`Step.ofArguments` says what each option is set to and which operands stand together.
-/

namespace ImportCensus

/-- How many values an option takes: none, one, or as many as there are but at least one. -/
inductive Arity where
  | flag
  | one
  | many
  deriving DecidableEq, Repr

/-- An option of a command with all its names. -/
structure OptionSpec (κ : Type) where
  key : κ
  names : List Text
  arity : Arity

/-- Why the arguments of a command are not carried out. -/
inductive Stop where
  | usage
  | help
  deriving DecidableEq, Repr

/-- An argument and what it is taken for. -/
inductive Argument (κ : Type) where
  | operand (text : Text)
  | separator
  /-- An option, perhaps with a value joined to it by an equals sign. -/
  | option (spec : OptionSpec κ) (joined : Option Text)
  /-- An option of one letter, and what stands right behind the letter. -/
  | cluster (spec : OptionSpec κ) (behind : Text)
  | unknown (text : Text)

namespace Argument

variable {κ : Type}

/-- The option of a name. -/
def named? (specs : List (OptionSpec κ)) (name : Text) : Option (OptionSpec κ) :=
  specs.find? fun spec => spec.names.contains name

/-- The text before the first equals sign, and the text behind it if there is one. -/
def cutAtEquals (text : Text) : Text × Option Text :=
  match text.dropWhile (· != '=') with
  | [] => (text, none)
  | _ :: value => (text.takeWhile (· != '='), some value)

/-- The options that a text which names none may stand for. -/
def candidates (specs : List (OptionSpec κ)) : Text → List (Argument κ)
  | '-' :: '-' :: rest =>
    let (name, joined) := cutAtEquals ('-' :: '-' :: rest)
    specs.flatMap fun spec =>
      (spec.names.filter fun full => name.isPrefixOf full).map fun _ => option spec joined
  | '-' :: c :: rest => ((named? specs ['-', c]).map fun spec => cluster spec rest).toList
  | _ => []

/-- Whether a text is a negative number. -/
def isNegativeNumber (text : Text) : Bool :=
  match text with
  | '-' :: rest =>
    let body := if rest.getLast? == some '\n' then rest.dropLast else rest
    let digits := (body.dropWhile Text.isDecimal)
    match digits with
    | [] => !body.isEmpty
    | '.' :: behind => !behind.isEmpty && behind.all Text.isDecimal
    | _ => false
  | _ => false

/-- What a name and the value joined to it are taken for.  A value joined to a name of one letter
stands right behind the letter, unless it is empty. -/
def joined (spec : OptionSpec κ) (name value : Text) : Argument κ :=
  if name.length = 2 ∧ value ≠ [] then cluster spec value else option spec (some value)

/-- What an argument before the separator is taken for.  A text that may be short for several
options is refused. -/
def classify (specs : List (OptionSpec κ)) (text : Text) : Except Stop (Argument κ) :=
  if text.head? ≠ some '-' || text == ['-'] then .ok (.operand text)
  else
    match named? specs text with
    | some spec => .ok (.option spec none)
    | none =>
      match cutAtEquals text with
      | (name, some value) =>
        match named? specs name with
        | some spec => .ok (joined spec name value)
        | none => choose text (candidates specs text)
      | (_, none) => choose text (candidates specs text)
where
  /-- The only candidate, if there is no other one. -/
  choose (text : Text) : List (Argument κ) → Except Stop (Argument κ)
    | [] =>
      .ok (if isNegativeNumber text || text.contains ' ' then .operand text else .unknown text)
    | [only] => .ok only
    | _ => .error .usage

/-- What the arguments of a command are taken for. -/
def classifyAll (specs : List (OptionSpec κ)) : List Text → Except Stop (List (Argument κ))
  | [] => .ok []
  | text :: rest =>
    if text = ['-', '-'] then .ok (.separator :: rest.map .operand)
    else do
      let argument ← classify specs text
      let others ← classifyAll specs rest
      return argument :: others

/-- The text of an operand. -/
def operand? : Argument κ → Option Text
  | operand text => some text
  | _ => none

/-- Whether an argument is an option, known or not. -/
def isOption : Argument κ → Bool
  | operand _ | separator => false
  | option _ _ | cluster _ _ | unknown _ => true

end Argument

/-- One thing that the arguments of a command ask for. -/
inductive Step (κ : Type) where
  | set (key : κ) (values : List Text)
  | operands (texts : List Text)
  /-- An argument that has no use. -/
  | stray
  /-- An option with too few values or too many. -/
  | bad
  deriving DecidableEq, Repr

namespace Step

variable {κ : Type}

/-- What the letters behind a flag of one letter ask for: each of them is a flag again. -/
def ofLetters? (specs : List (OptionSpec κ)) : Text → Option (List (Step κ))
  | [] => some []
  | c :: rest =>
    match Argument.named? specs ['-', c] with
    | some ⟨key, _, .flag⟩ => (ofLetters? specs rest).map (.set key [] :: ·)
    | _ => none

/-- What an option with a value joined to it asks for. -/
def ofJoined (spec : OptionSpec κ) (value : Text) : Step κ :=
  match spec.arity with
  | .flag => .bad
  | .one | .many => .set spec.key [value]

/-- What an option of one letter asks for with what stands right behind it. -/
def ofCluster (specs : List (OptionSpec κ)) (spec : OptionSpec κ) (behind : Text) :
    List (Step κ) :=
  match spec.arity with
  | .flag =>
    match ofLetters? specs behind with
    | some others => .set spec.key [] :: others
    | none => [.bad]
  | .one | .many => [.set spec.key [behind]]

/-- What arguments ask for that stand together and are no options. -/
def ofOperands (arguments : List (Argument κ)) : Step κ :=
  match arguments.filterMap Argument.operand? with
  | [] => .stray
  | texts => .operands texts

/-- The operands that arguments begin with. -/
def leadingOperands (arguments : List (Argument κ)) : List Text :=
  ((arguments.map Argument.operand?).takeWhile Option.isSome).reduceOption

/-- What arguments ask for, in their order.  An option takes the operands right behind it, as many
as it may; those that are left stand together up to the next option. -/
def ofArguments (specs : List (OptionSpec κ)) : List (Argument κ) → List (Step κ)
  | [] => []
  | .unknown _ :: rest => .stray :: ofArguments specs rest
  | .option spec (some value) :: rest => ofJoined spec value :: ofArguments specs rest
  | .cluster spec behind :: rest => ofCluster specs spec behind ++ ofArguments specs rest
  | .option spec none :: rest =>
    match spec.arity, leadingOperands rest with
    | .flag, _ => .set spec.key [] :: ofArguments specs rest
    | _, [] => .bad :: ofArguments specs rest
    | .one, value :: _ => .set spec.key [value] :: ofArguments specs (rest.drop 1)
    | .many, values => .set spec.key values :: ofArguments specs (rest.drop values.length)
  | .separator :: rest =>
    ofOperands (rest.takeWhile (!·.isOption)) :: ofArguments specs (rest.dropWhile (!·.isOption))
  | .operand text :: rest =>
    ofOperands (.operand text :: rest.takeWhile (!·.isOption))
      :: ofArguments specs (rest.dropWhile (!·.isOption))
termination_by arguments => arguments.length
decreasing_by
  all_goals
    have := (List.dropWhile_suffix (l := rest) (!·.isOption)).length_le
    simp <;> omega

end Step

end ImportCensus
