/-! The blank characters of Unicode, as the sorted points at which White_Space switches on and off. -/

namespace Parlance.Text

def whiteSpace : List Nat := [
  0x9, 0xe, 0x20, 0x21, 0x85, 0x86, 0xa0, 0xa1, 0x1680, 0x1681, 0x2000, 0x200b, 0x2028, 0x202a,
  0x202f, 0x2030, 0x205f, 0x2060, 0x3000, 0x3001]

end Parlance.Text
