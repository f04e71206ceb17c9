import OJJudge.Effects

/-! Byte strings as `std::string` has them, and the two functions that read a request URI:
`url_decode` and `uriKV_get`.  A string may hold any bytes; sizes are `size_t` and the indexes of
both functions are `int`. -/

namespace OJJudge

/-! ### Byte strings -/

/-- The bytes of a text with one byte for each character. -/
def bytes (s : String) : Bytes := s.toList.map Char.toUInt8

/-- A literal is decoded by this equation, and not by evaluation. -/
theorem bytes_ofList (cs : List Char) : bytes (String.ofList cs) = cs.map Char.toUInt8 := by
  rw [bytes, String.toList_ofList]

/-- `std::string::npos`. -/
def npos : Nat := 2 ^ 64 - 1

/-- `s.find(c)`. -/
def find (s : Bytes) (c : UInt8) : Nat := (s.findIdx? (· == c)).getD npos

/-- `s.substr(pos, n)`; `none` when it throws `std::out_of_range`. -/
def substr (s : Bytes) (pos n : Nat) : Option Bytes :=
  if pos ≤ s.length then some ((s.drop pos).take n) else none

/-- One more, as a `size_t`: `npos + 1` is zero. -/
def succSize (n : Nat) : Nat := (n + 1) % 2 ^ 64

/-- The conversion of a size to `int`. -/
def toInt (n : Nat) : Int := (BitVec.ofNat 32 n).toInt

/-- The conversion of an `int` to a size. -/
def toSize (x : Int) : Nat := (x % 2 ^ 64).toNat

/-! ### `url_decode` -/

def isHexDigit (b : UInt8) : Bool :=
  (48 ≤ b && b ≤ 57) || (65 ≤ b && b ≤ 70) || (97 ≤ b && b ≤ 102)

/-- The value of a hexadecimal digit of either case. -/
def hexValue (b : UInt8) : UInt32 :=
  if b ≤ 57 then (b - 48).toUInt32 else if b ≤ 70 then (b - 55).toUInt32 else (b - 87).toUInt32

/-- `isspace` in the C locale, on a byte. -/
def isSpaceByte (b : UInt8) : Bool := b == 32 || (9 ≤ b && b ≤ 13)

/-- `sscanf(s.c_str(), "%x", &ii)` as in glibc: white space, a sign, `0x`, and hexadecimal digits;
`none` when it leaves `ii` alone.  The zero of a prefix is a digit of its own, so that `0x` with no
digit behind it is zero. -/
def scanHex (s : Bytes) : Option UInt32 :=
  let text := (s.takeWhile (· ≠ 0)).dropWhile isSpaceByte
  let unsigned :=
    match text with
    | sign :: rest => if sign = 43 ∨ sign = 45 then rest else text
    | [] => text
  let unprefixed :=
    match unsigned with
    | zero :: x :: rest => if zero = 48 ∧ (x = 120 ∨ x = 88) then zero :: rest else unsigned
    | _ => unsigned
  let digits := unprefixed.takeWhile isHexDigit
  let value := digits.foldl (fun value digit => 16 * value + hexValue digit) 0
  if digits = [] then none else if text.head? = some 45 then some (-value) else some value

/-- The loop of `url_decode` from index `i` on; `none` when the index overflows. -/
def decodeFrom (i : Nat) (ii : UInt32) : Bytes → Option Bytes
  | [] => some []
  | ch :: rest =>
    if ch = '%'.toUInt8 then
      if 2147483647 < i + 3 then none
      else
        match rest with
        | [] => (decodeFrom (i + 3) ((scanHex []).getD ii) []).map
            (((scanHex []).getD ii).toUInt8 :: ·)
        | [a] => (decodeFrom (i + 3) ((scanHex [a]).getD ii) []).map
            (((scanHex [a]).getD ii).toUInt8 :: ·)
        | a :: b :: rest => (decodeFrom (i + 3) ((scanHex [a, b]).getD ii) rest).map
            (((scanHex [a, b]).getD ii).toUInt8 :: ·)
    else if 2147483647 < i + 1 then none
    else if ch = '+'.toUInt8 then (decodeFrom (i + 1) ii rest).map (' '.toUInt8 :: ·)
    else (decodeFrom (i + 1) ii rest).map (ch :: ·)

/-- The function declares the scratch integer `ii` without a value. -/
def url_decode (ii : UInt32) (str : Bytes) : Option Bytes := decodeFrom 0 ii str

/-- A string that is decoded has no index beyond `int`. -/
theorem length_of_decodeFrom {i : Nat} {ii : UInt32} {s decoded : Bytes} (hi : i ≤ 2147483647)
    (h : decodeFrom i ii s = some decoded) : i + s.length ≤ 2147483647 := by
  fun_induction decodeFrom i ii s generalizing decoded with
  | case1 => simpa using hi
  | case2 => cases h
  | case6 => cases h
  | case3 i ii hlt ih | case4 i ii hlt a ih =>
    simp only [List.length_cons, List.length_nil]
    omega
  | case5 i ii hlt a b rest ih =>
    obtain ⟨tail, htail, -⟩ := Option.map_eq_some_iff.mp h
    have hlen := ih (by omega) htail
    simp only [List.length_cons]
    omega
  | case7 i ii rest hlt hne ih | case8 i ii ch rest hne hlt hplus ih =>
    obtain ⟨tail, htail, -⟩ := Option.map_eq_some_iff.mp h
    have hlen := ih (by omega) htail
    simp only [List.length_cons]
    omega

theorem length_decodeFrom_le {i : Nat} {ii : UInt32} {s decoded : Bytes}
    (h : decodeFrom i ii s = some decoded) : decoded.length ≤ s.length := by
  fun_induction decodeFrom i ii s generalizing decoded with
  | case1 =>
    cases h
    exact le_rfl
  | case2 => cases h
  | case6 => cases h
  | case3 i ii hlt ih | case4 i ii hlt a ih | case5 i ii hlt a b rest ih
  | case7 i ii rest hlt hne ih | case8 i ii ch rest hne hlt hplus ih =>
    obtain ⟨tail, htail, rfl⟩ := Option.map_eq_some_iff.mp h
    have hlen := ih htail
    simp only [List.length_cons, List.length_nil] at hlen ⊢
    omega

/-! ### `uriKV_get` -/

/-- `std::map<std::string, std::string>`. -/
abbrev KVMap := List (Bytes × Bytes)

/-- `insert` keeps the value of a key that is there. -/
def KVMap.insert (m : KVMap) (kv : Bytes × Bytes) : KVMap :=
  if (m.lookup kv.1).isSome then m else m ++ [kv]

/-- The key and the value of a pair. -/
def splitPair (singleKV : Bytes) : Option (Bytes × Bytes) := do
  let key ← substr singleKV 0 (find singleKV '='.toUInt8)
  let value ← substr singleKV (succSize (find singleKV '='.toUInt8)) npos
  return (key, value)

/-- The loop of `uriKV_get`, with the turns left. -/
def splitLoop : Nat → Bytes → KVMap → Option KVMap
  | 0, _, uriKV => some uriKV
  | turns + 1, allKV, uriKV => do
    let len := toInt (find allKV '&'.toUInt8)
    let singleKV ← substr allKV 0 (toSize len)
    let allKV ← substr allKV (toSize (len + 1)) npos
    let kv ← splitPair singleKV
    splitLoop turns allKV (uriKV.insert kv)

def uriKV_get (uri : Bytes) : Option KVMap := do
  let allKV ← substr uri (succSize (find uri '?'.toUInt8)) npos
  splitLoop (toInt (allKV.count '&'.toUInt8 + 1)).toNat allKV []

end OJJudge
