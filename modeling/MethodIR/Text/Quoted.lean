import MethodIR.Text.Unprintable

/-! Text between double quotes, with everything that cannot stand for itself escaped. -/
namespace MethodIR.Text

/-- The form of one character between the quotes. -/
def escaped (c : Char) : List Char :=
  match c with
  | '"' => ['\\', '"']
  | '\\' => ['\\', '\\']
  | '\x00' => ['\\', '0']
  | '\t' => ['\\', 't']
  | '\n' => ['\\', 'n']
  | '\r' => ['\\', 'r']
  | c => if unprintable c then "\\u\x7b".toList ++ Nat.toDigits 16 c.toNat ++ ['}'] else [c]

def quotedChars (cs : List Char) : List Char := '"' :: (cs.flatMap escaped ++ ['"'])

def quoted (s : String) : String := String.ofList (quotedChars s.toList)

@[simp] theorem toList_quoted (s : String) : (quoted s).toList = quotedChars s.toList := by
  simp [quoted]

end MethodIR.Text
