/-
# `MipsText.Proofs.Source.Encoding` — sources that are given as lines of text

A source is read as bytes.  `Stream.ofLines` writes lines of text as such a source, each in
UTF-8 and ended by a line feed, and `lines_ofLines` says that they are read back as they
were.  This needs one fact about the encoding: a byte below 128 stands for the character
with that number and is no part of any other, so no line feed turns up inside a line that
has none.
-/
import MipsText.Proofs.Source.Alignment

namespace MipsText.Stream

theorem bytes_ofString (s : String) :
    (ofString s).bytes = s.toList.flatMap String.utf8EncodeChar := by
  have hbytes : s.toByteArray = (s.toList.flatMap String.utf8EncodeChar).toByteArray := by
    conv => lhs; rw [← String.ofList_toList (s := s)]
    rfl
  show s.toUTF8.data.toList = _
  rw [String.toUTF8_eq_toByteArray, hbytes]
  exact List.toList_data_toByteArray

theorem decode?_ofString (s : String) : decode? (ofString s).bytes = some s := by
  show String.fromUTF8? s.toUTF8 = some s
  unfold String.fromUTF8?
  rw [String.toUTF8_eq_toByteArray, dif_pos s.isValidUTF8]
  rfl

/-- A byte below 128 stands for the character with that number. -/
theorem toNat_of_mem_utf8EncodeChar {c : Char} {b : UInt8} (h : b ∈ String.utf8EncodeChar c)
    (hb : b.toNat < 128) : c.toNat = b.toNat := by
  -- every byte of a longer encoding has its highest bit set
  have high {x k : Nat} (hk : 128 ≤ k) (hx : x + k < 256) : b ≠ UInt8.ofNat (x + k) := by
    intro hbyte
    rw [hbyte, UInt8.toNat_ofNat'] at hb
    omega
  revert h
  fun_cases String.utf8EncodeChar c with
  | case1 v hv =>
      intro h
      rw [List.mem_singleton.mp h, UInt8.toNat_ofNat']
      show v = v % 2 ^ 8
      omega
  | case2 v =>
      intro h
      simp only [List.mem_cons, List.not_mem_nil, or_false] at h
      rcases h with h | h <;> exact absurd h (high (by omega) (by omega))
  | case3 v =>
      intro h
      simp only [List.mem_cons, List.not_mem_nil, or_false] at h
      rcases h with h | h | h <;> exact absurd h (high (by omega) (by omega))
  | case4 v =>
      intro h
      simp only [List.mem_cons, List.not_mem_nil, or_false] at h
      rcases h with h | h | h | h <;> exact absurd h (high (by omega) (by omega))

theorem not_isLineFeed_of_mem_ofString {s : String} (h : '\n' ∉ s.toList) :
    ∀ b ∈ (ofString s).bytes, isLineFeed b = false := by
  intro b hb
  rw [bytes_ofString] at hb
  obtain ⟨c, hc, hmem⟩ := List.mem_flatMap.mp hb
  rw [Bool.eq_false_iff]
  intro hfeed
  obtain rfl : b = 10 := by simpa [isLineFeed] using hfeed
  have hnat : c.toNat = 10 := toNat_of_mem_utf8EncodeChar hmem (by decide)
  have hnewline : c = '\n' := Char.toNat_inj.mp hnat
  exact h (hnewline ▸ hc)

theorem takeLine_append {line : List UInt8} {feed : UInt8}
    (hline : ∀ b ∈ line, isLineFeed b = false) (hfeed : isLineFeed feed = true) (s : Stream) :
    takeLine { s with bytes := line ++ feed :: s.bytes } = (decodeLine (line ++ [feed]), s) := by
  have hpass : ∀ b ∈ line, (!isLineFeed b) = true := by
    intro b hb
    rw [hline b hb]
    rfl
  have htake : (line ++ feed :: s.bytes).takeWhile (fun b => !isLineFeed b) = line := by
    rw [List.takeWhile_append_of_pos hpass]
    simp [hfeed]
  have hdrop : (line ++ feed :: s.bytes).dropWhile (fun b => !isLineFeed b) =
      feed :: s.bytes := by
    rw [List.dropWhile_append_of_pos hpass]
    simp [hfeed]
  rw [takeLine, hdrop, htake]

/-- The source with the given lines, in UTF-8 and each ended by a line feed. -/
def ofLines (ls : List String) : Stream where
  bytes := ls.flatMap fun line => (ofString line).bytes ++ [10]

/-- Lines of text are read back from the source that has them. -/
theorem lines_ofLines {ls : List String} (h : ∀ line ∈ ls, '\n' ∉ line.toList) :
    (ofLines ls).lines = ls.map some := by
  have hbytes : (ofLines ls).byteLines = ls.map fun line => (ofString line).bytes := by
    have hfeed : ∀ bytes ∈ ls.map fun line => (ofString line).bytes,
        ∀ b ∈ bytes, isLineFeed b = false := by
      intro bytes hbytes
      obtain ⟨line, hline, rfl⟩ := List.mem_map.mp hbytes
      exact not_isLineFeed_of_mem_ofString (h line hline)
    have hread := byteLines_terminated hfeed
    rwa [List.flatMap_map] at hread
  rw [lines_eq_map_byteLines, hbytes, List.map_map]
  exact List.map_congr_left fun line _ => decode?_ofString line

end MipsText.Stream
