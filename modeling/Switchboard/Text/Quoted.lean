import Switchboard.Text.Decimal
import Switchboard.Text.Printable

/-! Text in double quotes, for messages to people: what cannot be seen is named by its code. -/
namespace Switchboard.Text

def quotedChar (c : Char) : Text :=
  match c with
  | '\x00' => ['\\', '0']
  | '\t' => ['\\', 't']
  | '\r' => ['\\', 'r']
  | '\n' => ['\\', 'n']
  | '"' => ['\\', '"']
  | '\\' => ['\\', '\\']
  | c =>
    if isPrintable c then [c]
    else '\\' :: 'u' :: '\x7b' :: (hexadecimal c.toNat ++ ['\x7d'])

def quoted (t : Text) : Text := '"' :: (t.flatMap quotedChar ++ ['"'])

end Switchboard.Text
