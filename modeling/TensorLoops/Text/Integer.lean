namespace TensorLoops.Text

/-- Decimal digits, with a minus sign in front of a negative number. -/
def integer (z : Int) : String := if z < 0 then "-" ++ z.natAbs.repr else z.natAbs.repr

end TensorLoops.Text
