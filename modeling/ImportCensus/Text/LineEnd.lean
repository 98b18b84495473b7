import ImportCensus.Text

/-!
# Line ends

A line ends with a line feed, a carriage return, or both in this order.  `unifyLines` writes a
line feed for each.
-/

namespace ImportCensus.Text

/-- A text with a line feed at the end of every line. -/
def unifyLines : Text → Text
  | [] => []
  | '\r' :: '\n' :: rest => '\n' :: unifyLines rest
  | '\r' :: rest => '\n' :: unifyLines rest
  | c :: rest => c :: unifyLines rest

end ImportCensus.Text
