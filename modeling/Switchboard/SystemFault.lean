import Switchboard.Text.Decimal

/-! Faults of the system by number, in the words of Linux. -/
namespace Switchboard.SystemFault

def words : Nat → String
  | 1 => "Operation not permitted"
  | 2 => "No such file or directory"
  | 13 => "Permission denied"
  | 20 => "Not a directory"
  | 21 => "Is a directory"
  | 22 => "Invalid argument"
  | 24 => "Too many open files"
  | 32 => "Broken pipe"
  | 36 => "File name too long"
  | 90 => "Message too long"
  | 97 => "Address family not supported by protocol"
  | 98 => "Address already in use"
  | 99 => "Cannot assign requested address"
  | 101 => "Network is unreachable"
  | 103 => "Software caused connection abort"
  | 104 => "Connection reset by peer"
  | 107 => "Transport endpoint is not connected"
  | 110 => "Connection timed out"
  | 111 => "Connection refused"
  | 113 => "No route to host"
  | n => "Unknown error " ++ String.ofList (Text.decimal n)

def text (n : Nat) : Text :=
  (words n).toList ++ " (os error ".toList ++ Text.decimal n ++ [')']

end Switchboard.SystemFault
