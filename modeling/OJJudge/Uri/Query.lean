import OJJudge.Uri.Decode

/-! The way of request parameters from a page to a handler.  The page joins the parameters, each value
percent-encoded; the handler decodes the whole URI and splits it then, so a separator inside a value
splits the value. -/

namespace OJJudge

/-! ### The page -/

/-- The bytes that `encodeURIComponent` keeps. -/
def isUnreserved (b : UInt8) : Bool :=
  (48 ≤ b && b ≤ 57) || (65 ≤ b && b ≤ 90) || (97 ≤ b && b ≤ 122) ||
    b ∈ "-_.!~*'()".toList.map Char.toUInt8

/-- An upper-case hexadecimal digit. -/
def hexDigit (n : UInt8) : UInt8 := if n < 10 then 48 + n else 55 + n

def encodeByte (b : UInt8) : Bytes :=
  if isUnreserved b then [b] else ['%'.toUInt8, hexDigit (b / 16), hexDigit (b % 16)]

/-- `encodeURIComponent`, on the bytes of the string. -/
def encodeURIComponent (s : Bytes) : Bytes := s.flatMap encodeByte

/-- `Object.keys(params).map(k => k + '=' + encodeURIComponent(params[k])).join('&')`. -/
def joinParams (params : KVMap) : Bytes :=
  ['&'.toUInt8].intercalate
    (params.map fun kv => kv.1 ++ '='.toUInt8 :: encodeURIComponent kv.2)

/-- The URI of a request. -/
def requestUri (path : Bytes) (params : KVMap) : Bytes :=
  path ++ '?'.toUInt8 :: joinParams params

/-! ### Decoding an encoded URI -/

/-- A lower-case hexadecimal digit. -/
def hexDigitLower (n : UInt8) : UInt8 := if n < 10 then 48 + n else 87 + n

/-- The digit `d`, of either case, has the value `n`. -/
def IsDigit (d n : UInt8) : Prop := d = hexDigit n ∨ d = hexDigitLower n

theorem isHexDigit_of_isSpaceByte {a : UInt8} (h : isSpaceByte a = true) : isHexDigit a = false := by
  simp only [isSpaceByte, isHexDigit] at h ⊢
  grind

/-- Two digits are a number. -/
theorem scanHex_pair {a b : UInt8} (ha : isHexDigit a = true) (hb : isHexDigit b = true) :
    scanHex [a, b] = some (16 * hexValue a + hexValue b) := by
  have hne {c : UInt8} (hc : isHexDigit c = true) (d : UInt8) (hd : isHexDigit d = false) :
      c ≠ d := by
    rintro rfl
    rw [hd] at hc
    cases hc
  have hspace : isSpaceByte a = false := by
    rw [← Bool.not_eq_true]
    intro hspace
    exact absurd (isHexDigit_of_isSpaceByte hspace) (by simp [ha])
  have htext : ([a, b].takeWhile (· ≠ 0)).dropWhile isSpaceByte = [a, b] := by
    simp [hne ha 0 rfl, hne hb 0 rfl, hspace]
  unfold scanHex
  rw [htext]
  simp [hne ha 43 rfl, hne ha 45 rfl, hne hb 120 rfl, hne hb 88 rfl, ha, hb]

theorem IsDigit.value {d n : UInt8} (h : IsDigit d n) (hn : n < 16) :
    isHexDigit d = true ∧ hexValue d = n.toUInt32 := by
  have hupper : ∀ n : Fin 16, isHexDigit (hexDigit (UInt8.ofNat n)) = true ∧
      hexValue (hexDigit (UInt8.ofNat n)) = (UInt8.ofNat n).toUInt32 := by decide
  have hlower : ∀ n : Fin 16, isHexDigit (hexDigitLower (UInt8.ofNat n)) = true ∧
      hexValue (hexDigitLower (UInt8.ofNat n)) = (UInt8.ofNat n).toUInt32 := by decide
  have hu := hupper ⟨n.toNat, hn⟩
  have hl := hlower ⟨n.toNat, hn⟩
  rw [UInt8.ofNat_toNat] at hu hl
  rcases h with rfl | rfl
  · exact hu
  · exact hl

theorem scanHex_digits {b hi lo : UInt8} (hhi : IsDigit hi (b / 16)) (hlo : IsDigit lo (b % 16)) :
    (scanHex [hi, lo]).map UInt32.toUInt8 = some b := by
  have hlt := b.toNat_lt
  have hhigh : b / 16 < 16 := by
    rw [UInt8.lt_iff_toNat_lt, UInt8.toNat_div]
    show b.toNat / 16 < 16
    omega
  have hlow : b % 16 < 16 := by
    rw [UInt8.lt_iff_toNat_lt, UInt8.toNat_mod]
    show b.toNat % 16 < 16
    omega
  obtain ⟨hhi, hvalue⟩ := hhi.value hhigh
  obtain ⟨hlo, hvalue'⟩ := hlo.value hlow
  rw [scanHex_pair hhi hlo, hvalue, hvalue', Option.map_some, Option.some_inj, ← UInt8.toNat_inj]
  simp
  omega

/-- `url_decode` turns `encoded` into `decoded`, whatever stands before and after it. -/
def Decodes (encoded decoded : Bytes) : Prop :=
  ∀ (i : Nat) (ii : UInt32) (rest : Bytes), i + encoded.length ≤ 2147483647 →
    ∃ ii', decodeFrom i ii (encoded ++ rest) =
      (decodeFrom (i + encoded.length) ii' rest).map (decoded ++ ·)

theorem Decodes.nil : Decodes [] [] := fun i ii rest _ => ⟨ii, by simp⟩

theorem Decodes.append {e e' d d' : Bytes} (h : Decodes e d) (h' : Decodes e' d') :
    Decodes (e ++ e') (d ++ d') := by
  intro i ii rest hlen
  rw [List.length_append] at hlen
  obtain ⟨ii₁, h₁⟩ := h i ii (e' ++ rest) (by omega)
  obtain ⟨ii₂, h₂⟩ := h' (i + e.length) ii₁ rest (by omega)
  refine ⟨ii₂, ?_⟩
  rw [List.append_assoc, h₁, h₂, Option.map_map, List.length_append, Nat.add_assoc]
  simp [Function.comp_def]

theorem Decodes.byte {b : UInt8} (hpercent : b ≠ '%'.toUInt8) (hplus : b ≠ '+'.toUInt8) :
    Decodes [b] [b] := by
  intro i ii rest hlen
  rw [List.length_singleton] at hlen
  refine ⟨ii, ?_⟩
  rw [List.singleton_append, decodeFrom.eq_def]
  simp only [hpercent, hplus, if_false, if_neg (show ¬2147483647 < i + 1 by omega)]
  rfl

/-- Bytes that `url_decode` takes literally. -/
def Literal (s : Bytes) : Prop := ∀ b ∈ s, b ≠ '%'.toUInt8 ∧ b ≠ '+'.toUInt8

theorem Decodes.literal : {s : Bytes} → Literal s → Decodes s s
  | [], _ => .nil
  | b :: _, h =>
    have hb := h b (List.mem_cons_self ..)
    (Decodes.byte hb.1 hb.2).append (.literal fun c hc => h c (List.mem_cons_of_mem b hc))

/-- An escape, with digits of either case, decodes to its byte. -/
theorem Decodes.escape {b hi lo : UInt8} (hhi : IsDigit hi (b / 16)) (hlo : IsDigit lo (b % 16)) :
    Decodes ['%'.toUInt8, hi, lo] [b] := by
  intro i ii rest hlen
  simp only [List.length_cons, List.length_nil] at hlen
  obtain ⟨v, hv, hb⟩ := Option.map_eq_some_iff.mp (scanHex_digits hhi hlo)
  refine ⟨v, ?_⟩
  rw [List.cons_append, List.cons_append, List.singleton_append, decodeFrom.eq_def]
  simp only [hv, Option.getD_some, hb, if_true, if_neg (show ¬2147483647 < i + 3 by omega)]
  rfl

theorem Decodes.space : Decodes ['+'.toUInt8] [' '.toUInt8] := by
  intro i ii rest hlen
  rw [List.length_singleton] at hlen
  refine ⟨ii, ?_⟩
  rw [List.singleton_append, decodeFrom.eq_def]
  simp only [if_neg (show '+'.toUInt8 ≠ '%'.toUInt8 by decide), if_true,
    if_neg (show ¬2147483647 < i + 1 by omega)]
  rfl

theorem Decodes.encodeByte (b : UInt8) : Decodes (encodeByte b) [b] := by
  unfold OJJudge.encodeByte
  split
  · next h =>
    refine .byte ?_ ?_
    · rintro rfl
      exact absurd h (by decide)
    · rintro rfl
      exact absurd h (by decide)
  · exact .escape (.inl rfl) (.inl rfl)

theorem Decodes.encodeURIComponent (s : Bytes) : Decodes (encodeURIComponent s) s := by
  induction s with
  | nil => exact .nil
  | cons b s ih => exact (Decodes.encodeByte b).append ih

/-- The query of the URI, decoded. -/
def joinDecoded (params : KVMap) : Bytes :=
  ['&'.toUInt8].intercalate (params.map fun kv => kv.1 ++ '='.toUInt8 :: kv.2)

theorem Decodes.joinParams (params : KVMap) (hnames : ∀ kv ∈ params, Literal kv.1) :
    Decodes (joinParams params) (joinDecoded params) := by
  have hpair : ∀ kv ∈ params, Decodes (kv.1 ++ '='.toUInt8 :: OJJudge.encodeURIComponent kv.2)
      (kv.1 ++ '='.toUInt8 :: kv.2) := fun kv hkv =>
    (Decodes.literal (hnames kv hkv)).append
      ((Decodes.byte (by decide) (by decide)).append (.encodeURIComponent kv.2))
  unfold OJJudge.joinParams joinDecoded
  induction params with
  | nil => exact .nil
  | cons kv rest ih =>
    have hkv := hpair kv (List.mem_cons_self ..)
    cases rest with
    | nil => simpa [List.intercalate] using hkv
    | cons kv' rest =>
      have hrest := ih (fun kv h => hnames kv (List.mem_cons_of_mem _ h))
        fun kv h => hpair kv (List.mem_cons_of_mem _ h)
      have hmark : Decodes ['&'.toUInt8] ['&'.toUInt8] := .byte (by decide) (by decide)
      simpa [List.intercalate] using hkv.append (hmark.append hrest)

/-- Decoding gives back an encoded URI that an `int` can index, and nothing for a longer one. -/
theorem url_decode_requestUri (ii : UInt32) {path : Bytes} {params : KVMap} (hpath : Literal path)
    (hnames : ∀ kv ∈ params, Literal kv.1) :
    url_decode ii (requestUri path params) =
      if (requestUri path params).length ≤ 2147483647 then
        some (path ++ '?'.toUInt8 :: joinDecoded params)
      else none := by
  split
  · next hlen =>
    have hmark : Decodes ['?'.toUInt8] ['?'.toUInt8] := .byte (by decide) (by decide)
    have hall := (Decodes.literal hpath).append (hmark.append (.joinParams params hnames))
    obtain ⟨ii', h⟩ := hall 0 ii [] (by simpa [requestUri] using hlen)
    simpa [url_decode, requestUri, decodeFrom] using h
  · next hlen =>
    by_contra hne
    obtain ⟨decoded, hsome⟩ := Option.ne_none_iff_exists'.mp hne
    have hle := length_of_decodeFrom (by decide) hsome
    omega

/-! ### Splitting -/

/-- The pair of a piece: without `=`, the whole piece is both key and value. -/
def pairOf (piece : Bytes) : Bytes × Bytes :=
  (piece.takeWhile (· ≠ '='.toUInt8),
    if '='.toUInt8 ∈ piece then (piece.dropWhile (· ≠ '='.toUInt8)).tail else piece)

theorem pairOf_append {name : Bytes} (h : '='.toUInt8 ∉ name) (value : Bytes) :
    pairOf (name ++ '='.toUInt8 :: value) = (name, value) := by
  have hall : ∀ b ∈ name, b ≠ '='.toUInt8 := by
    rintro b hb rfl
    exact h hb
  have hmem : '='.toUInt8 ∈ name ++ '='.toUInt8 :: value := by simp
  simp only [pairOf, hmem, if_true]
  rw [List.takeWhile_append_of_pos (by simpa using hall),
    List.dropWhile_append_of_pos (by simpa using hall)]
  simp

theorem find_of_not_mem {s : Bytes} {c : UInt8} (h : c ∉ s) : find s c = npos := by
  rw [find, List.findIdx?_eq_none_iff.mpr, Option.getD_none]
  intro b hb
  simp only [beq_eq_false_iff_ne]
  rintro rfl
  exact h hb

theorem find_append {a : Bytes} {c : UInt8} (h : c ∉ a) (b : Bytes) :
    find (a ++ c :: b) c = a.length := by
  have ha : a.findIdx? (· == c) = none := by
    refine List.findIdx?_eq_none_iff.mpr fun d hd => ?_
    simp only [beq_eq_false_iff_ne]
    rintro rfl
    exact h hd
  simp [find, List.findIdx?_append, ha, List.findIdx?_cons]

theorem substr_prefix (a b : Bytes) : substr (a ++ b) 0 a.length = some a := by
  simp [substr]

theorem substr_suffix (a : Bytes) {c : UInt8} {b : Bytes} (hb : b.length ≤ npos) :
    substr (a ++ c :: b) (a.length + 1) npos = some b := by
  rw [substr, if_pos (by simp), List.drop_length_add_append, List.drop_one, List.tail_cons,
    List.take_of_length_le hb]

theorem substr_whole {s : Bytes} {n : Nat} (hs : s.length ≤ n) : substr s 0 n = some s := by
  simp [substr, List.take_of_length_le hs]

theorem toInt_of_lt {n : Nat} (hn : n < 2147483648) : toInt n = n := by
  have hmod : n % 2 ^ 32 = n := Nat.mod_eq_of_lt (by omega)
  rw [toInt, BitVec.toInt_eq_toNat_of_lt]
  all_goals
    rw [BitVec.toNat_ofNat, hmod]
  omega

theorem toSize_natCast {n : Nat} (hn : n < 2 ^ 64) : toSize n = n := by
  unfold toSize
  omega

theorem splitPair_eq {piece : Bytes} (h : piece.length < 2147483648) :
    splitPair piece = some (pairOf piece) := by
  by_cases hmem : '='.toUInt8 ∈ piece
  · obtain ⟨key, value, rfl, hkey⟩ := List.eq_append_cons_of_mem hmem
    simp only [List.length_append, List.length_cons] at h
    have hsucc : succSize key.length = key.length + 1 := by
      unfold succSize
      omega
    rw [pairOf_append hkey, splitPair, find_append hkey, substr_prefix, hsucc,
      substr_suffix key (by simp only [npos]; omega)]
    rfl
  · have hall : ∀ b ∈ piece, b ≠ '='.toUInt8 := by
      rintro b hb rfl
      exact hmem hb
    have hpair : pairOf piece = (piece, piece) := by
      simp only [pairOf, hmem, if_false]
      rw [List.takeWhile_eq_self_iff.mpr (by simpa using hall)]
    have hlen : piece.length ≤ npos := by
      simp only [npos]
      omega
    have hsucc : succSize npos = 0 := by decide
    rw [hpair, splitPair, find_of_not_mem hmem, hsucc, substr_whole hlen]
    rfl

theorem splitLoop_eq {allKV : Bytes} (h : allKV.length < 2147483648) (uriKV : KVMap) :
    splitLoop (allKV.count '&'.toUInt8 + 1) allKV uriKV =
      some (((allKV.splitOn '&'.toUInt8).map pairOf).foldl KVMap.insert uriKV) := by
  induction hn : allKV.count '&'.toUInt8 generalizing allKV uriKV with
  | zero =>
    have hmem : '&'.toUInt8 ∉ allKV := List.count_eq_zero.mp hn
    have hlen : toInt npos = -1 := by decide
    have hsize : toSize (-1) = npos := by decide
    have hwhole : substr allKV 0 npos = some allKV := by
      refine substr_whole ?_
      simp only [npos]
      omega
    have hzero : toSize (-1 + 1) = 0 := by decide
    simp only [splitLoop, find_of_not_mem hmem, hlen, hsize, hzero, hwhole, Option.bind_eq_bind,
      Option.bind_some, splitPair_eq h, List.splitOn_eq_singleton hmem]
    rfl
  | succ n ih =>
    have hmem : '&'.toUInt8 ∈ allKV := List.count_pos_iff.mp (by omega)
    obtain ⟨piece, rest, rfl, hpiece⟩ := List.eq_append_cons_of_mem hmem
    simp only [List.length_append, List.length_cons] at h
    rw [List.count_append, List.count_eq_zero.mpr hpiece, List.count_cons_self] at hn
    have hlen : toInt piece.length = (piece.length : Int) := toInt_of_lt (by omega)
    have hsucc : toSize ((piece.length : Int) + 1) = piece.length + 1 := by
      rw [← Nat.cast_succ, toSize_natCast (by omega)]
    have hrest : rest.length ≤ npos := by
      simp only [npos]
      omega
    rw [splitLoop, find_append hpiece, hlen, toSize_natCast (by omega), hsucc, substr_prefix,
      substr_suffix piece hrest, List.splitOn_append_cons_self_of_not_mem hpiece]
    simp only [Option.bind_eq_bind, Option.bind_some, splitPair_eq (show piece.length < _ by omega)]
    rw [ih (by omega) _ (by omega)]
    rfl

/-- `uriKV_get` keeps the first pair of each key. -/
theorem uriKV_get_eq {path query : Bytes} (hpath : '?'.toUInt8 ∉ path)
    (h : (path ++ '?'.toUInt8 :: query).length < 2147483648) :
    uriKV_get (path ++ '?'.toUInt8 :: query) =
      some (((query.splitOn '&'.toUInt8).map pairOf).foldl KVMap.insert []) := by
  simp only [List.length_append, List.length_cons] at h
  have hsucc : succSize path.length = path.length + 1 := by
    unfold succSize
    omega
  have hquery : query.length ≤ npos := by
    simp only [npos]
    omega
  have hcount : query.count '&'.toUInt8 ≤ query.length := List.count_le_length
  have hturns : (toInt (query.count '&'.toUInt8 + 1)).toNat = query.count '&'.toUInt8 + 1 := by
    rw [toInt_of_lt (by omega), Int.toNat_natCast]
  rw [uriKV_get, find_append hpath, hsucc, substr_suffix path hquery]
  simp only [Option.bind_eq_bind, Option.bind_some]
  rw [hturns, splitLoop_eq (by omega)]

/-! ### The parameters that arrive -/

theorem KVMap.lookup_insert (m : KVMap) (kv : Bytes × Bytes) (name : Bytes) :
    (m.insert kv).lookup name = (m ++ [kv]).lookup name := by
  unfold KVMap.insert
  split
  · next h =>
    rw [List.lookup_append]
    by_cases hname : name = kv.1
    · subst hname
      obtain ⟨v, hv⟩ := Option.isSome_iff_exists.mp h
      simp [hv]
    · have hnone : List.lookup name [kv] = none := by
        rw [List.lookup_cons, beq_false_of_ne hname]
        rfl
      rw [hnone, Option.or_none]
  · rfl

theorem KVMap.lookup_foldl (kvs : List (Bytes × Bytes)) (m : KVMap) (name : Bytes) :
    (kvs.foldl KVMap.insert m).lookup name = (m ++ kvs).lookup name := by
  induction kvs generalizing m with
  | nil => simp
  | cons kv kvs ih =>
    rw [List.foldl_cons, ih, List.lookup_append, KVMap.lookup_insert, ← List.lookup_append]
    simp

/-- The pieces of a parameter. -/
def piecesOf (kv : Bytes × Bytes) : List (Bytes × Bytes) :=
  ((kv.1 ++ '='.toUInt8 :: kv.2).splitOn '&'.toUInt8).map pairOf

theorem map_pairOf_splitOn_joinDecoded {params : KVMap} (h : params ≠ []) :
    ((joinDecoded params).splitOn '&'.toUInt8).map pairOf = params.flatMap piecesOf := by
  unfold joinDecoded
  induction params with
  | nil => exact absurd rfl h
  | cons kv rest ih =>
    cases rest with
    | nil => simp [List.intercalate, piecesOf]
    | cons kv' rest =>
      have hrest := ih (by simp)
      have hjoin : ['&'.toUInt8].intercalate ((kv :: kv' :: rest).map fun kv =>
          kv.1 ++ '='.toUInt8 :: kv.2) = (kv.1 ++ '='.toUInt8 :: kv.2) ++ '&'.toUInt8 ::
            ['&'.toUInt8].intercalate ((kv' :: rest).map fun kv => kv.1 ++ '='.toUInt8 :: kv.2) := by
        simp [List.intercalate]
      rw [hjoin, List.splitOn_append_cons_self, List.map_append, hrest, List.flatMap_cons]
      rfl

/-- The name of a parameter: letters, digits and underscores. -/
def PlainName (name : Bytes) : Prop :=
  ∀ b ∈ name, (48 ≤ b ∧ b ≤ 57) ∨ (65 ≤ b ∧ b ≤ 90) ∨ (97 ≤ b ∧ b ≤ 122) ∨ b = '_'.toUInt8

theorem PlainName.literal {name : Bytes} (h : PlainName name) : Literal name := by
  intro b hb
  constructor
  · rintro rfl
    exact absurd (h _ hb) (by decide)
  · rintro rfl
    exact absurd (h _ hb) (by decide)

theorem PlainName.not_mem {name : Bytes} (h : PlainName name) :
    '='.toUInt8 ∉ name ∧ '&'.toUInt8 ∉ name :=
  ⟨fun hb => absurd (h _ hb) (by decide), fun hb => absurd (h _ hb) (by decide)⟩

/-- The first piece of a parameter has its name, and its value up to the first `&`. -/
theorem piecesOf_eq {name : Bytes} (hname : '='.toUInt8 ∉ name ∧ '&'.toUInt8 ∉ name)
    (value : Bytes) : ∃ rest, piecesOf (name, value) = (name, value.takeWhile (· ≠ '&'.toUInt8)) :: rest ∧
      ('&'.toUInt8 ∉ value → rest = []) := by
  obtain ⟨heq, hamp⟩ := hname
  by_cases hmem : '&'.toUInt8 ∈ value
  · obtain ⟨a, b, rfl, ha⟩ := List.eq_append_cons_of_mem hmem
    have hall : ∀ c ∈ a, c ≠ '&'.toUInt8 := by
      rintro c hc rfl
      exact ha hc
    have hsplit : '&'.toUInt8 ∉ name ++ '='.toUInt8 :: a := by
      simp only [List.mem_append, List.mem_cons, not_or]
      exact ⟨hamp, by decide, ha⟩
    refine ⟨(b.splitOn '&'.toUInt8).map pairOf, ?_, fun h => absurd hmem h⟩
    rw [piecesOf, ← List.cons_append, ← List.append_assoc,
      List.splitOn_append_cons_self_of_not_mem hsplit, List.map_cons, pairOf_append heq,
      List.takeWhile_append_of_pos (by simpa using hall)]
    simp
  · have hall : ∀ c ∈ value, c ≠ '&'.toUInt8 := by
      rintro c hc rfl
      exact hmem hc
    have hsplit : '&'.toUInt8 ∉ name ++ '='.toUInt8 :: value := by
      simp only [List.mem_append, List.mem_cons, not_or]
      exact ⟨hamp, by decide, hmem⟩
    refine ⟨[], ?_, fun _ => rfl⟩
    rw [piecesOf, List.splitOn_eq_singleton hsplit, List.map_singleton, pairOf_append heq,
      List.takeWhile_eq_self_iff.mpr (by simpa using hall)]

theorem flatMap_piecesOf {params : KVMap}
    (hnames : ∀ kv ∈ params, '='.toUInt8 ∉ kv.1 ∧ '&'.toUInt8 ∉ kv.1)
    (hvalues : ∀ kv ∈ params, '&'.toUInt8 ∉ kv.2) : params.flatMap piecesOf = params := by
  induction params with
  | nil => rfl
  | cons kv rest ih =>
    obtain ⟨name, value⟩ := kv
    obtain ⟨pieces, hpieces, hnil⟩ := piecesOf_eq (hnames _ (List.mem_cons_self ..)) value
    have hvalue := hvalues _ (List.mem_cons_self ..)
    have hall : ∀ c ∈ value, c ≠ '&'.toUInt8 := by
      rintro c hc rfl
      exact hvalue hc
    rw [List.flatMap_cons, hpieces, hnil hvalue, List.takeWhile_eq_self_iff.mpr (by simpa using hall),
      ih (fun kv h => hnames kv (List.mem_cons_of_mem _ h))
        fun kv h => hvalues kv (List.mem_cons_of_mem _ h)]
    rfl

/-- The first parameter whose value has a separator arrives cut. -/
theorem not_mem_of_lookup {params : KVMap} (hnames : ∀ kv ∈ params, PlainName kv.1)
    (hdistinct : (params.map Prod.fst).Nodup)
    (h : ∀ kv ∈ params, (params.flatMap piecesOf).lookup kv.1 = some kv.2) :
    ∀ kv ∈ params, '&'.toUInt8 ∉ kv.2 := by
  induction params with
  | nil => simp
  | cons kv rest ih =>
    obtain ⟨name, value⟩ := kv
    obtain ⟨pieces, hpieces, hnil⟩ := piecesOf_eq (hnames _ (List.mem_cons_self ..)).not_mem value
    have hvalue : '&'.toUInt8 ∉ value := by
      have hcut := h _ (List.mem_cons_self ..)
      rw [List.flatMap_cons, hpieces, List.cons_append, List.lookup_cons, beq_self_eq_true] at hcut
      have hwhole : value.takeWhile (· ≠ '&'.toUInt8) = value := Option.some_inj.mp hcut
      intro hmem
      rw [← hwhole] at hmem
      simpa using List.mem_takeWhile_imp hmem
    rw [List.map_cons, List.nodup_cons] at hdistinct
    have hrest := ih (fun kv h => hnames kv (List.mem_cons_of_mem _ h)) hdistinct.2 fun kv hkv => by
      have hlookup := h kv (List.mem_cons_of_mem _ hkv)
      have hne : kv.1 ≠ name := by
        intro heq
        have hmem := List.mem_map_of_mem (f := Prod.fst) hkv
        rw [heq] at hmem
        exact hdistinct.1 hmem
      rw [List.flatMap_cons, hpieces, hnil hvalue, List.cons_append, List.lookup_cons,
        beq_false_of_ne hne] at hlookup
      exact hlookup
    rintro kv hkv
    obtain rfl | hkv := List.mem_cons.mp hkv
    · exact hvalue
    · exact hrest kv hkv

/-- The parameters arrive as they were sent. -/
def Survives (ii : UInt32) (path : Bytes) (params : KVMap) : Prop :=
  ∃ decoded KVpairs, url_decode ii (requestUri path params) = some decoded ∧
    uriKV_get decoded = some KVpairs ∧ ∀ name, KVpairs.lookup name = params.lookup name

theorem lookup_of_mem {params : KVMap} (hdistinct : (params.map Prod.fst).Nodup)
    {kv : Bytes × Bytes} (h : kv ∈ params) : params.lookup kv.1 = some kv.2 := by
  induction params with
  | nil => cases h
  | cons kv' rest ih =>
    rw [List.map_cons, List.nodup_cons] at hdistinct
    obtain rfl | h := List.mem_cons.mp h
    · exact List.lookup_cons_self
    · have hne : kv.1 ≠ kv'.1 := fun heq => hdistinct.1 (heq ▸ List.mem_map_of_mem h)
      rw [List.lookup_cons, beq_false_of_ne hne]
      exact ih hdistinct.2 h

/-- Parameters survive the trip from a page to a handler when there is one at least, no value holds a
separator, and an `int` can index the URI. -/
theorem parameters_survive_iff (ii : UInt32) (path : Bytes) (params : KVMap)
    (hpath : ∀ b ∈ path, b ≠ '?'.toUInt8 ∧ b ≠ '%'.toUInt8 ∧ b ≠ '+'.toUInt8)
    (hnames : ∀ kv ∈ params, PlainName kv.1) (hdistinct : (params.map Prod.fst).Nodup) :
    Survives ii path params ↔ params ≠ [] ∧ (∀ kv ∈ params, '&'.toUInt8 ∉ kv.2) ∧
      (requestUri path params).length < 2147483648 := by
  have hdecode := url_decode_requestUri ii (fun b hb => (hpath b hb).2)
    fun kv hkv => (hnames kv hkv).literal
  have hquestion : '?'.toUInt8 ∉ path := fun h => (hpath _ h).1 rfl
  by_cases hlen : (requestUri path params).length ≤ 2147483647
  · rw [if_pos hlen] at hdecode
    have hshort := length_decodeFrom_le hdecode
    have hget : uriKV_get (path ++ '?'.toUInt8 :: joinDecoded params) = _ :=
      uriKV_get_eq hquestion (by omega)
    have hlookup : ∀ name, (((joinDecoded params).splitOn '&'.toUInt8).map pairOf).lookup name =
        ((((joinDecoded params).splitOn '&'.toUInt8).map pairOf).foldl KVMap.insert []).lookup
          name := fun name => by
      rw [KVMap.lookup_foldl, List.nil_append]
    constructor
    · rintro ⟨decoded, KVpairs, hd, hk, hall⟩
      cases hdecode.symm.trans hd
      cases hget.symm.trans hk
      have hne : params ≠ [] := by
        rintro rfl
        have hempty := hall []
        rw [← hlookup] at hempty
        exact absurd hempty (by decide)
      refine ⟨hne, not_mem_of_lookup hnames hdistinct fun kv hkv => ?_, by omega⟩
      rw [← map_pairOf_splitOn_joinDecoded hne, hlookup, hall, lookup_of_mem hdistinct hkv]
    · rintro ⟨hne, hvalues, -⟩
      refine ⟨_, _, hdecode, hget, fun name => ?_⟩
      rw [← hlookup, map_pairOf_splitOn_joinDecoded hne,
        flatMap_piecesOf (fun kv hkv => (hnames kv hkv).not_mem) hvalues]
  · rw [if_neg hlen] at hdecode
    constructor
    · rintro ⟨decoded, KVpairs, hd, -⟩
      cases hdecode.symm.trans hd
    · rintro ⟨-, -, hshort⟩
      omega

/-- A value with `=`, `+` and `%` arrives. -/
theorem parameters_survive_with_equals :
    Survives 0 (bytes "/add/problem")
      [(bytes "problem_id", bytes "a=b+c%"), (bytes "test_num", bytes "2")] := by
  iterate 5 rw [bytes_ofList]
  refine (parameters_survive_iff _ _ _ (List.all_iff_forall_prop.mp (by decide)) ?_
    (by decide)).mpr ⟨by decide, List.all_iff_forall_prop.mp (by decide), by decide⟩
  rw [List.forall_mem_cons, List.forall_mem_singleton]
  exact ⟨List.all_iff_forall_prop.mp (by decide), List.all_iff_forall_prop.mp (by decide)⟩

/-- A value with `&` is cut there. -/
theorem value_cut_at_ampersand :
    (∀ kv ∈ [(bytes "problem_id", bytes "a&b")], PlainName kv.1) ∧
      ¬Survives 0 (bytes "/add/problem") [(bytes "problem_id", bytes "a&b")] := by
  constructor
  · rw [List.forall_mem_singleton, bytes_ofList]
    exact List.all_iff_forall_prop.mp (by decide)
  · rintro ⟨decoded, KVpairs, hd, hk, h⟩
    have hrun : ((url_decode 0 (requestUri (bytes "/add/problem")
        [(bytes "problem_id", bytes "a&b")])).bind uriKV_get).map
          (·.lookup (bytes "problem_id")) = some (some (bytes "a")) := by
      iterate 4 rw [bytes_ofList]
      decide
    rw [hd, Option.bind_some, hk, Option.map_some, h] at hrun
    iterate 2 rw [bytes_ofList] at hrun
    exact absurd hrun (by decide)

end OJJudge
