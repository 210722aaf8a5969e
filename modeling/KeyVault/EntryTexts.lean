import KeyVault.AclNormal
import KeyVault.AddressSpellings

/-!
# The texts of allowedIP entries

What `parseEntry` accepts is written with hexadecimal digits and the punctuation of
addresses, between blanks; the number of its dots tells it from a token.
-/

namespace EntryTexts

open JsValue IpMatch AddressGrammar AllowedAddresses AddressSpellings

end EntryTexts
