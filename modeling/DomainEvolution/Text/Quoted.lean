import DomainEvolution.Text.Visible

/-!
# Quoted text in messages

A message shows a foreign text between double quotes, with every character that could mislead the
reader escaped, so the extent of the text and its characters can be read off the message.
-/

namespace DomainEvolution.Text

/-- One character inside quotes: quotes, backslashes and the common controls have short escapes,
the other hidden characters are given by their hexadecimal code point. -/
def quoteChar (c : Char) : String :=
  if c = '"' then "\\\""
  else if c = '\\' then "\\\\"
  else if c = '\n' then "\\n"
  else if c = '\r' then "\\r"
  else if c = '\t' then "\\t"
  else if c = '\x00' then "\\0"
  else if isHidden c then
    String.ofList (['\\', 'u', '\x7b'] ++ Nat.toDigits 16 c.toNat ++ ['\x7d'])
  else String.singleton c

/-- A text between double quotes, as a message shows it. -/
def quoted (text : String) : String :=
  "\"" ++ String.join (text.toList.map quoteChar) ++ "\""

end DomainEvolution.Text
