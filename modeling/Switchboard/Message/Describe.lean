import Switchboard.Message.Basic

/-! The form of a message for people: a title over each part. -/
namespace Switchboard

def titled (mark title value : Text) : Text :=
  mark ++ ' ' :: (title ++ ' ' :: (mark ++ '\n' :: (value ++ ['\n'])))

namespace Message

def describe (m : Message) : Text :=
  let part (title : String) (value : Text) := titled "###".toList title.toList value
  "*** ".toList ++ m.kind.name ++ " ***\n".toList ++
    (match m.start with
      | .request method uri version =>
        part "METHOD" method ++ part "URI" uri ++ part "SIP VERSION" version
      | .response version code reason =>
        part "SIP VERSION" version ++ part "RESPONSE CODE" (Text.decimal code.toNat) ++
          part "REASON PHRASE" reason) ++
    "--- HEADERS (".toList ++ Text.decimal m.headers.length ++ ") ---\n".toList ++
    (m.headers.flatMap fun h => titled "---".toList h.name h.value) ++
    part "CONTENT" m.body ++ "*** END ***\n".toList

end Message
end Switchboard
