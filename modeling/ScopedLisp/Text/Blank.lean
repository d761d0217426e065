import ScopedLisp.Text.CodePoints

-- The characters that separate tokens without being part of one.

namespace ScopedLisp

-- The characters with the property White_Space.
def whiteSpace : CodePoints :=
  [(0x09, 0x0D), (0x20, 0x20), (0x85, 0x85), (0xA0, 0xA0), (0x1680, 0x1680), (0x2000, 0x200A),
    (0x2028, 0x2029), (0x202F, 0x202F), (0x205F, 0x205F), (0x3000, 0x3000)]

-- White space and the comma.
def isBlank (c : Char) : Bool :=
  whiteSpace.has c || c == ','

end ScopedLisp
