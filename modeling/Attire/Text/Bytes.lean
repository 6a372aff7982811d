namespace Attire

/-! Texts as they are stored, in UTF-8. -/

def bytes (text : String) : List Nat := text.toUTF8.data.toList.map UInt8.toNat

end Attire
