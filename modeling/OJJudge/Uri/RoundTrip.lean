import OJJudge.Uri.Query

/-! Round trips of the two functions that read a request URI: `url_decode` undoes every percent
encoding of a byte string, and `uriKV_get` undoes the joining of pairs. -/

namespace OJJudge

/-! ### Encodings -/

/-- `Encodes e s` says that `e` is an encoding of `s`: each byte is an escape with digits of either
case, or stands for itself, or is a blank written as a plus sign. -/
inductive Encodes : Bytes → Bytes → Prop
  | nil : Encodes [] []
  | escape {b hi lo : UInt8} {e s : Bytes} (hhi : IsDigit hi (b / 16)) (hlo : IsDigit lo (b % 16))
      (h : Encodes e s) : Encodes ('%'.toUInt8 :: hi :: lo :: e) (b :: s)
  | literal {b : UInt8} {e s : Bytes} (hpercent : b ≠ '%'.toUInt8) (hplus : b ≠ '+'.toUInt8)
      (h : Encodes e s) : Encodes (b :: e) (b :: s)
  | space {e s : Bytes} (h : Encodes e s) : Encodes ('+'.toUInt8 :: e) (' '.toUInt8 :: s)

theorem Encodes.decodes {e s : Bytes} (h : Encodes e s) : Decodes e s := by
  induction h with
  | nil => exact .nil
  | escape hhi hlo _ ih => exact (Decodes.escape hhi hlo).append ih
  | literal hpercent hplus _ ih => exact (Decodes.byte hpercent hplus).append ih
  | space _ ih => exact Decodes.space.append ih

/-- An encoding has at most three bytes for each one. -/
theorem Encodes.length_le {e s : Bytes} (h : Encodes e s) : e.length ≤ 3 * s.length := by
  induction h with
  | nil => simp
  | escape | literal | space =>
    simp only [List.length_cons]
    omega

theorem encodes_encodeURIComponent (s : Bytes) : Encodes (encodeURIComponent s) s := by
  induction s with
  | nil => exact .nil
  | cons b s ih =>
    rw [encodeURIComponent, List.flatMap_cons, encodeByte]
    split
    · next h =>
      refine .literal ?_ ?_ ih
      · rintro rfl
        exact absurd h (by decide)
      · rintro rfl
        exact absurd h (by decide)
    · exact .escape (.inl rfl) (.inl rfl) ih

/-- `url_decode` undoes every encoding, that of `encodeURIComponent` among them, whatever its scratch
integer holds at first. -/
theorem url_decode_encoding (ii : UInt32) (s : Bytes) (hlen : s.length < 2 ^ 29) :
    (∀ e, Encodes e s → url_decode ii e = some s) ∧
      url_decode ii (encodeURIComponent s) = some s := by
  have hall : ∀ e, Encodes e s → url_decode ii e = some s := by
    intro e h
    have hle := h.length_le
    obtain ⟨ii', hdecode⟩ := h.decodes 0 ii [] (by omega)
    simpa [url_decode, decodeFrom] using hdecode
  exact ⟨hall, hall _ (encodes_encodeURIComponent s)⟩

/-- Both cases of a digit, a plus sign and a zero byte. -/
theorem url_decode_encoding_mixed :
    url_decode 7 (bytes "%4a+%2B%2f%00-") = some (bytes "J +/\x00-") :=
  (url_decode_encoding 7 (bytes "J +/\x00-") (by decide)).1 _
    (.escape (.inl rfl) (.inr rfl) (.space (.escape (.inl rfl) (.inl rfl)
      (.escape (.inl rfl) (.inr rfl) (.escape (.inl rfl) (.inl rfl)
        (.literal (by decide) (by decide) .nil))))))

/-! ### Joined pairs -/

theorem KVMap.keys_insert {m : KVMap} (kv : Bytes × Bytes) (h : (m.map Prod.fst).Nodup) :
    ((m.insert kv).map Prod.fst).Nodup := by
  unfold KVMap.insert
  split
  · exact h
  · next hnew =>
    rw [List.map_append, List.map_singleton, List.nodup_append]
    refine ⟨h, List.nodup_singleton _, fun key hkey key' hkey' => ?_⟩
    rw [List.mem_singleton] at hkey'
    rintro rfl
    subst hkey'
    -- A key of the map has a value.
    obtain ⟨old, hold, hfst⟩ := List.mem_map.mp hkey
    apply hnew
    rw [← hfst, lookup_of_mem h hold]
    rfl

theorem KVMap.keys_foldl (kvs : List (Bytes × Bytes)) {m : KVMap} (h : (m.map Prod.fst).Nodup) :
    ((kvs.foldl KVMap.insert m).map Prod.fst).Nodup := by
  induction kvs generalizing m with
  | nil => exact h
  | cons kv kvs ih => exact ih (keys_insert kv h)

/-- `uriKV_get` undoes the joining of pairs: its map binds every key once, to the first value that the
list has for it, and binds nothing else. -/
theorem uriKV_get_joined (path : Bytes) (pairs : KVMap) (hpath : '?'.toUInt8 ∉ path)
    (hpairs : pairs ≠ []) (hkeys : ∀ kv ∈ pairs, '='.toUInt8 ∉ kv.1 ∧ '&'.toUInt8 ∉ kv.1)
    (hvalues : ∀ kv ∈ pairs, '&'.toUInt8 ∉ kv.2)
    (hlen : (path ++ '?'.toUInt8 :: joinDecoded pairs).length < 2 ^ 31) :
    ∃ uriKV, uriKV_get (path ++ '?'.toUInt8 :: joinDecoded pairs) = some uriKV ∧
      (uriKV.map Prod.fst).Nodup ∧ ∀ key, uriKV.lookup key = pairs.lookup key := by
  refine ⟨_, uriKV_get_eq hpath hlen, KVMap.keys_foldl _ List.nodup_nil, fun key => ?_⟩
  rw [KVMap.lookup_foldl, List.nil_append, map_pairOf_splitOn_joinDecoded hpairs,
    flatMap_piecesOf hkeys hvalues]

/-- A value with separators of its own, a key that comes twice, and a pair without anything. -/
theorem uriKV_get_joined_twice :
    ∃ uriKV, uriKV_get (bytes "/p?a=b=c?&a=2&=") = some uriKV ∧ (uriKV.map Prod.fst).Nodup ∧
      ∀ key, uriKV.lookup key =
        [(bytes "a", bytes "b=c?"), (bytes "a", bytes "2"), ([], [])].lookup key :=
  uriKV_get_joined (bytes "/p") [(bytes "a", bytes "b=c?"), (bytes "a", bytes "2"), ([], [])]
    (by decide) (by decide) (by decide) (by decide) (by decide)

end OJJudge
