import FormatLint.Data.Decode
import FormatLint.Json.Reader
import FormatLint.Error

/-!
Decoding of JSON documents.
-/

namespace FormatLint

/-- What keeps a document from being decoded, in words. -/
def Json.decodeText (decode : Datum → Decoded α) (bytes : Bytes) : Except String α :=
  match Json.read bytes with
  | .error fault => .error fault.message
  | .ok datum =>
    match decode datum with
    | .error fault => .error fault.message
    | .ok value => .ok value

/-- Decodes a JSON text. -/
def decodeJson (decode : Datum → Decoded α) (text : String) : Except Error α :=
  match Json.decodeText decode (Utf8.encode text) with
  | .error detail => .error (Error.unreadableJson detail)
  | .ok value => .ok value

end FormatLint
