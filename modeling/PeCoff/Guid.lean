import PeCoff.Bytes.Reader

/-!
# Globally unique identifiers

Sixteen bytes: three little-endian numbers and eight bytes in order. The
displayed form writes the numbers with their high digits first.
-/

namespace PeCoff

structure Guid where
  data1 : UInt32
  data2 : UInt16
  data3 : UInt16
  data4 : Vector UInt8 8
  deriving DecidableEq

namespace Guid

open LittleEndian (value)

def ofBytes (bytes : Vector UInt8 16) : Guid where
  data1 := .ofNat (value (bytes.extract 0 4).toList)
  data2 := .ofNat (value (bytes.extract 4 6).toList)
  data3 := .ofNat (value (bytes.extract 6 8).toList)
  data4 := bytes.extract 8 16

def toList (guid : Guid) : List UInt8 :=
  LittleEndian.bytes 4 guid.data1.toNat ++ LittleEndian.bytes 2 guid.data2.toNat ++
    LittleEndian.bytes 2 guid.data3.toNat ++ guid.data4.toList

theorem length_toList (guid : Guid) : guid.toList.length = 16 := by
  simp [toList]

def toBytes (guid : Guid) : Vector UInt8 16 :=
  ⟨guid.toList.toArray, by rw [List.size_toArray, length_toList]⟩

def read : Reader Guid := do
  pure (ofBytes (← Reader.exact 16))

/-- Field by field, the bytes at the end in order. -/
instance : Ord Guid where
  compare a b :=
    (compare a.data1 b.data1).then <| (compare a.data2 b.data2).then <|
      (compare a.data3 b.data3).then <|
        List.compareLex compare a.data4.toList b.data4.toList

private def digits (bytes : List UInt8) : String :=
  String.join (bytes.map fun byte => Numeral.hexUpper 2 byte.toNat)

/-- Upper-case digits in groups of 8, 4, 4, 4 and 12 between braces. -/
def display (guid : Guid) : String :=
  "\x7b" ++ Numeral.hexUpper 8 guid.data1.toNat ++ "-" ++ Numeral.hexUpper 4 guid.data2.toNat ++
    "-" ++ Numeral.hexUpper 4 guid.data3.toNat ++ "-" ++ digits (guid.data4.toList.take 2) ++
    "-" ++ digits (guid.data4.toList.drop 2) ++ "\x7d"

private theorem toList_digits (bytes : List UInt8) :
    (digits bytes).toList = bytes.flatMap fun byte => (Numeral.hexUpper 2 byte.toNat).toList := by
  rw [digits, String.toList_join, List.flatMap_map]

theorem toList_display (guid : Guid) :
    guid.display.toList =
      '\x7b' :: ['-'].intercalate [
        (Numeral.hexUpper 8 guid.data1.toNat).toList, (Numeral.hexUpper 4 guid.data2.toNat).toList,
        (Numeral.hexUpper 4 guid.data3.toNat).toList,
        (guid.data4.toList.take 2).flatMap fun byte => (Numeral.hexUpper 2 byte.toNat).toList,
        (guid.data4.toList.drop 2).flatMap fun byte => (Numeral.hexUpper 2 byte.toNat).toList] ++
      ['\x7d'] := by
  simp [display, toList_digits, List.intercalate]

end Guid

end PeCoff
