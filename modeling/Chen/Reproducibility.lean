import Chen.Python.Hashlib
import Chen.Python.Json

/-!
# Config hashing
-/

namespace Chen

/-- `hash_config`: the SHA-256 of the config's canonical text, in hexadecimal. The text is ASCII, so
that it has an encoding. -/
def hashConfig [Hashlib] (config : List (String × Json)) : String :=
  Str.hex (Hashlib.sha256 (Str.utf8 (Json.dumps (.dict config))))

end Chen
