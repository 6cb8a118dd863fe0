namespace TensorLoops.Text

/-- Items with a comma and a blank between two of them. -/
def commaSeparated (items : List String) : String := ", ".intercalate items

/-- Comma-separated items between brackets. -/
def bracketed (items : List String) : String := "[" ++ commaSeparated items ++ "]"

end TensorLoops.Text
