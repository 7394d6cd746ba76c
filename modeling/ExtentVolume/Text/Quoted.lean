import ExtentVolume.Text.Hidden

namespace ExtentVolume.Text

def digits (base n : Nat) : String := String.ofList (Nat.toDigits base n)

def escape (c : Char) : String :=
  if c == '\x00' then "\\0"
  else if c == '\t' then "\\t"
  else if c == '\n' then "\\n"
  else if c == '\r' then "\\r"
  else if c == '\\' then "\\\\"
  else if c == '"' then "\\\""
  else if isHidden c then "\\u\x7b" ++ digits 16 c.toNat ++ "\x7d"
  else c.toString

def quoted (s : String) : String :=
  "\"" ++ String.join (s.toList.map escape) ++ "\""

end ExtentVolume.Text
