namespace IndexRefresh.Text

/-- The lower-case form of the characters whose lower-case form is an ASCII letter; the Kelvin sign
is one of them. -/
def lowerChar (c : Char) : Char :=
  if c = '\u212a' then 'k' else c.toLower

def lower (cs : List Char) : List Char :=
  cs.map lowerChar

end IndexRefresh.Text
