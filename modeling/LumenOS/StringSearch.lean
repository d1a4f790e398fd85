import LumenOS.TerminatedText
import Mathlib.Data.List.Infix

/-!
# `strstr` of the kernel's C library

A comparison is started at every place of the haystack, the end excluded, and
stops at the first difference or at the end of either string. The loops get
rounds as those of `strtok` do.
-/

namespace LumenOS.StringSearch

open LumenOS.ByteMemory LumenOS.TerminatedText

set_option autoImplicit false

/-- The loop `while (*h && *n && *h == *n) { ++h; ++n; }`; where `n` ends up. -/
def matchFrom (memory : Memory) : Nat → Nat → Nat → Option Nat
  | 0, _, _ => none
  | rounds + 1, h, n =>
      if readByte memory h ≠ 0 ∧ readByte memory n ≠ 0 ∧ readByte memory h = readByte memory n then
        matchFrom memory rounds (u32 (h + 1)) (u32 (n + 1))
      else some n

/-- The loop over the haystack. -/
def searchFrom (memory : Memory) (needle limit : Nat) : Nat → Nat → Option Nat
  | 0, _ => none
  | rounds + 1, haystack =>
      if readByte memory haystack = 0 then some 0
      else do
        let n ← matchFrom memory limit haystack needle
        if readByte memory n = 0 then some haystack
        else searchFrom memory needle limit rounds (u32 (haystack + 1))

def strstr (rounds : Nat) (memory : Memory) (haystack needle : Nat) : Option Nat :=
  if readByte memory needle = 0 then some haystack
  else searchFrom memory needle rounds rounds haystack

/-- The needle occurs at this place of the haystack and at none before it. -/
def Leftmost (needle haystack : List Byte) (place : Nat) : Prop :=
  needle <+: haystack.drop place ∧ ∀ earlier, earlier < place → ¬ needle <+: haystack.drop earlier

theorem leftmost_behind {needle : List Byte} {c : Byte} {rest : List Byte} {place : Nat}
    (absent : ¬ needle <+: c :: rest) (leftmost : Leftmost needle rest place) :
    Leftmost needle (c :: rest) (place + 1) := by
  refine ⟨leftmost.1, ?_⟩
  intro earlier before
  cases earlier with
  | zero => exact absent
  | succ earlier => exact leftmost.2 earlier (by omega)

/-- The comparison reaches the end of the needle just where the needle is an
initial part. -/
theorem match_from_ends {memory : Memory} (rest needle : List Byte) (h n : Nat)
    (restSpelled : Terminated (readByte memory) h rest)
    (needleSpelled : Terminated (readByte memory) n needle)
    (restFits : h + rest.length < 2 ^ 32) (needleFits : n + needle.length < 2 ^ 32)
    (rounds : Nat) (enough : needle.length < rounds) :
    ∃ stop, matchFrom memory rounds h n = some stop ∧
      (readByte memory stop = 0 ↔ needle <+: rest) := by
  induction needle generalizing rest h n rounds with
  | nil =>
      obtain ⟨rounds, rfl⟩ := Nat.exists_eq_succ_of_ne_zero (Nat.ne_of_gt enough)
      have terminator : readByte memory n = 0 := needleSpelled
      have stops : ¬ (readByte memory h ≠ 0 ∧ readByte memory n ≠ 0 ∧
          readByte memory h = readByte memory n) := fun goes => goes.2.1 terminator
      rw [matchFrom, if_neg stops]
      exact ⟨n, rfl, iff_of_true terminator List.nil_prefix⟩
  | cons d needle ih =>
      obtain ⟨needleHere, nonzero, needleLater⟩ := needleSpelled
      rw [List.length_cons] at needleFits enough
      obtain ⟨rounds, rfl⟩ := Nat.exists_eq_succ_of_ne_zero (show rounds ≠ 0 by omega)
      rw [matchFrom, needleHere]
      cases rest with
      | nil =>
          have terminator : readByte memory h = 0 := restSpelled
          rw [terminator, if_neg fun goes => goes.1 rfl]
          refine ⟨n, rfl, iff_of_false ?_ ?_⟩
          · rw [needleHere]
            exact nonzero
          · intro begins
            cases List.prefix_nil.mp begins
      | cons c rest =>
          obtain ⟨restHere, restNonzero, restLater⟩ := restSpelled
          rw [List.length_cons] at restFits
          rw [restHere, List.cons_prefix_cons]
          by_cases same : c = d
          · have restNext : u32 (h + 1) = h + 1 := Nat.mod_eq_of_lt (by omega)
            have needleNext : u32 (n + 1) = n + 1 := Nat.mod_eq_of_lt (by omega)
            obtain ⟨stop, stops, ends⟩ := ih rest (h + 1) (n + 1) restLater needleLater (by omega)
              (by omega) rounds (by omega)
            rw [if_pos ⟨restNonzero, nonzero, same⟩, restNext, needleNext]
            exact ⟨stop, stops, ends.trans ⟨fun begins => ⟨same.symm, begins⟩, And.right⟩⟩
          · rw [if_neg fun goes => same goes.2.2]
            refine ⟨n, rfl, iff_of_false ?_ fun begins => same begins.1.symm⟩
            rw [needleHere]
            exact nonzero

/-- What a search ends with: the leftmost occurrence, or the null pointer where
there is none. -/
def Found (haystack : Nat) (hay needle : List Byte) (result : Nat) : Prop :=
  (∃ place, Leftmost needle hay place ∧ result = haystack + place) ∨
    (¬ needle <:+: hay ∧ result = 0)

theorem search_from_finds {memory : Memory} {needleAddress limit : Nat} {needle : List Byte}
    (string : StringAt memory needleAddress needle) (some_needle : needle ≠ [])
    (limitEnough : needle.length < limit) (hay : List Byte) (haystack : Nat)
    (spelled : Terminated (readByte memory) haystack hay)
    (fits : haystack + hay.length < 2 ^ 32) (rounds : Nat) (enough : hay.length < rounds) :
    ∃ result, searchFrom memory needleAddress limit rounds haystack = some result ∧
      Found haystack hay needle result := by
  induction hay generalizing haystack rounds with
  | nil =>
      obtain ⟨rounds, rfl⟩ := Nat.exists_eq_succ_of_ne_zero (Nat.ne_of_gt enough)
      have terminator : readByte memory haystack = 0 := spelled
      rw [searchFrom, if_pos terminator]
      exact ⟨0, rfl, .inr ⟨fun inside => some_needle (List.infix_nil.mp inside), rfl⟩⟩
  | cons c rest ih =>
      obtain ⟨stop, stops, ends⟩ := match_from_ends (c :: rest) needle haystack needleAddress
        spelled string.spelled fits string.fits limit limitEnough
      obtain ⟨here, nonzero, later⟩ := spelled
      rw [List.length_cons] at fits enough
      obtain ⟨rounds, rfl⟩ := Nat.exists_eq_succ_of_ne_zero (show rounds ≠ 0 by omega)
      rw [searchFrom, here, if_neg nonzero, stops, Option.bind_eq_bind, Option.bind_some]
      by_cases begins : needle <+: c :: rest
      · rw [if_pos (ends.mpr begins)]
        refine ⟨haystack, rfl, .inl ⟨0, ⟨begins, ?_⟩, rfl⟩⟩
        intro earlier before
        omega
      · have next : u32 (haystack + 1) = haystack + 1 := Nat.mod_eq_of_lt (by omega)
        obtain ⟨result, searches, found⟩ := ih (haystack + 1) later (by omega) rounds (by omega)
        rw [if_neg (mt ends.mp begins), next]
        refine ⟨result, searches, ?_⟩
        rcases found with ⟨place, leftmost, rfl⟩ | ⟨absent, rfl⟩
        · exact .inl ⟨place + 1, leftmost_behind begins leftmost, by omega⟩
        · refine .inr ⟨?_, rfl⟩
          intro inside
          rcases List.infix_cons_iff.mp inside with first | behind
          · exact begins first
          · exact absent behind

theorem strstr_finds {memory : Memory} {haystack needleAddress : Nat} {hay needle : List Byte}
    (hayString : StringAt memory haystack hay) (string : StringAt memory needleAddress needle)
    (rounds : Nat) (hayEnough : hay.length < rounds) (enough : needle.length < rounds) :
    ∃ result, strstr rounds memory haystack needleAddress = some result ∧
      Found haystack hay needle result := by
  rw [strstr]
  cases needle with
  | nil =>
      have terminator : readByte memory needleAddress = 0 := string.spelled
      rw [if_pos terminator]
      refine ⟨haystack, rfl, .inl ⟨0, ⟨List.nil_prefix, ?_⟩, rfl⟩⟩
      intro earlier before
      omega
  | cons d needle =>
      have nonzero : readByte memory needleAddress ≠ 0 := by
        rw [string.spelled.1]
        exact string.spelled.2.1
      rw [if_neg nonzero]
      exact search_from_finds string (List.cons_ne_nil d needle) enough hay haystack
        hayString.spelled hayString.fits rounds hayEnough

theorem found_not_null_iff {haystack result : Nat} {hay needle : List Byte}
    (notNull : 0 < haystack) (found : Found haystack hay needle result) :
    result ≠ 0 ↔ needle <:+: hay := by
  rcases found with ⟨place, ⟨begins, -⟩, rfl⟩ | ⟨absent, rfl⟩
  · exact iff_of_true (by omega) (begins.isInfix.trans (List.drop_suffix place hay).isInfix)
  · exact iff_of_false (by simp) absent

end LumenOS.StringSearch
