import LumenOS.StringSearch
import Mathlib.Data.Nat.Bitwise

/-!
# Boot modules by name

`multiboot_find_module` goes through the module records of the multiboot
information and takes the first with a string that contains the name. The two
outputs are variables of the caller, not part of the memory searched.
-/

namespace LumenOS.ModuleLookup

open LumenOS.ByteMemory LumenOS.TerminatedText LumenOS.StringSearch

set_option autoImplicit false

structure MultibootInfo where
  flags : Nat
  modsCount : Nat
  modsAddr : Nat

def multibootInfo (memory : Memory) (mbInfo : Nat) : MultibootInfo where
  flags := load32 memory mbInfo
  modsCount := load32 memory (mbInfo + 20)
  modsAddr := load32 memory (mbInfo + 24)

structure MultibootModule where
  modStart : Nat
  modEnd : Nat
  string : Nat

/-- `mods[i]`, sixteen bytes a record. -/
def moduleAt (memory : Memory) (mods i : Nat) : MultibootModule where
  modStart := load32 memory (mods + 16 * i)
  modEnd := load32 memory (mods + 16 * i + 4)
  string := load32 memory (mods + 16 * i + 8)

structure Outputs where
  outAddr : Nat
  outSize : Nat
  deriving DecidableEq

/-- `mod_end - mod_start` in 32 bits. -/
def MultibootModule.outputs (mod : MultibootModule) : Outputs where
  outAddr := mod.modStart
  outSize := u32 (mod.modEnd + 2 ^ 32 - mod.modStart)

def findModuleFrom (rounds : Nat) (memory : Memory) (mods name : Nat) (outputs : Outputs) :
    Nat → Nat → Option (Nat × Outputs)
  | 0, _ => some (0, outputs)
  | left + 1, i =>
      let modName := (moduleAt memory mods i).string
      if modName = 0 then findModuleFrom rounds memory mods name outputs left (i + 1)
      else do
        let found ← strstr rounds memory modName name
        if found ≠ 0 then some (1, (moduleAt memory mods i).outputs)
        else findModuleFrom rounds memory mods name outputs left (i + 1)

def multibootFindModule (rounds : Nat) (memory : Memory) (mbInfo : Nat) (outputs : Outputs)
    (name : Nat) : Option (Nat × Outputs) :=
  let info := multibootInfo memory mbInfo
  if mbInfo = 0 ∨ info.flags &&& (1 <<< 3) = 0 ∨ info.modsCount = 0 then some (0, outputs)
  else findModuleFrom rounds memory info.modsAddr name outputs info.modsCount 0

def ModulesFlag (memory : Memory) (mbInfo : Nat) : Prop :=
  mbInfo ≠ 0 ∧ (multibootInfo memory mbInfo).flags.testBit 3 = true

def StringOrNull (memory : Memory) (string : Nat) : Option (List Byte) → Prop
  | none => string = 0
  | some text => StringAt memory string text

def Contains (name : List Byte) : Option (List Byte) → Prop
  | none => False
  | some text => name <:+: text

def FirstContaining (name : List Byte) (texts : Nat → Option (List Byte)) (i : Nat) : Prop :=
  Contains name (texts i) ∧ ∀ j, j < i → ¬ Contains name (texts j)

section Search

variable {memory : Memory} {nameAddress : Nat} {name : List Byte}
  {texts : Nat → Option (List Byte)}

theorem module_contains (named : StringAt memory nameAddress name) (rounds : Nat)
    (enough : name.length < rounds) {string : Nat} {text : List Byte}
    (stringAt : StringAt memory string text) (textEnough : text.length < rounds) :
    ∃ found, strstr rounds memory string nameAddress = some found ∧
      (found ≠ 0 ↔ name <:+: text) := by
  obtain ⟨found, result, finds⟩ := strstr_finds stringAt named rounds textEnough enough
  exact ⟨found, result, found_not_null_iff stringAt.not_null finds⟩

section Step

variable (named : StringAt memory nameAddress name) (rounds : Nat) (enough : name.length < rounds)
  (mods : Nat) (outputs : Outputs) (left : Nat) {i : Nat}
  (here : StringOrNull memory (moduleAt memory mods i).string (texts i))
  (textEnough : ∀ text, texts i = some text → text.length < rounds)

include named enough here textEnough

theorem find_module_here (contains : Contains name (texts i)) :
    findModuleFrom rounds memory mods nameAddress outputs (left + 1) i =
      some (1, (moduleAt memory mods i).outputs) := by
  cases known : texts i with
  | none =>
      rw [known] at contains
      exact contains.elim
  | some text =>
      rw [known] at here contains
      have string : StringAt memory (moduleAt memory mods i).string text := here
      obtain ⟨found, result, found_iff⟩ :=
        module_contains named rounds enough string (textEnough text known)
      rw [findModuleFrom, if_neg (Nat.ne_of_gt string.not_null), result, Option.bind_eq_bind,
        Option.bind_some, if_pos (found_iff.mpr contains)]

theorem find_module_next (misses : ¬ Contains name (texts i)) :
    findModuleFrom rounds memory mods nameAddress outputs (left + 1) i =
      findModuleFrom rounds memory mods nameAddress outputs left (i + 1) := by
  cases known : texts i with
  | none =>
      rw [known] at here
      have null : (moduleAt memory mods i).string = 0 := here
      rw [findModuleFrom, if_pos null]
  | some text =>
      rw [known] at here misses
      have string : StringAt memory (moduleAt memory mods i).string text := here
      obtain ⟨found, result, found_iff⟩ :=
        module_contains named rounds enough string (textEnough text known)
      rw [findModuleFrom, if_neg (Nat.ne_of_gt string.not_null), result, Option.bind_eq_bind,
        Option.bind_some, if_neg (mt found_iff.mp misses)]

end Step

/-- The loop ends with the first module that contains the name, if none before
module `i` does. -/
theorem find_module_from (named : StringAt memory nameAddress name) (rounds : Nat)
    (enough : name.length < rounds) (mods : Nat) (outputs : Outputs) (left i : Nat)
    (strings : ∀ j, j < i + left → StringOrNull memory (moduleAt memory mods j).string (texts j))
    (textsEnough : ∀ j text, j < i + left → texts j = some text → text.length < rounds)
    (absent : ∀ j, j < i → ¬ Contains name (texts j)) :
    (∃ j, j < i + left ∧ FirstContaining name texts j ∧
        findModuleFrom rounds memory mods nameAddress outputs left i =
          some (1, (moduleAt memory mods j).outputs)) ∨
      ((∀ j, j < i + left → ¬ Contains name (texts j)) ∧
        findModuleFrom rounds memory mods nameAddress outputs left i = some (0, outputs)) := by
  induction left generalizing i with
  | zero => exact .inr ⟨absent, rfl⟩
  | succ left ih =>
      have here := strings i (by omega)
      have textEnough := fun text => textsEnough i text (by omega)
      by_cases contains : Contains name (texts i)
      · apply Or.inl
        use i, by omega, ⟨contains, absent⟩
        exact find_module_here named rounds enough mods outputs left here textEnough contains
      · have last : i + (left + 1) = i + 1 + left := by omega
        have further : ∀ j, j < i + 1 → ¬ Contains name (texts j) := by
          intro j before
          by_cases same : j = i
          · rw [same]
            exact contains
          · exact absent j (by omega)
        rw [find_module_next named rounds enough mods outputs left here textEnough contains, last]
        exact ih (i + 1) (fun j bound => strings j (by omega))
          (fun j text bound => textsEnough j text (by omega)) further

end Search

theorem flag_masked (flags : Nat) : flags &&& (1 <<< 3) = 0 ↔ flags.testBit 3 = false := by
  have mask : (1 <<< 3 : Nat) = 2 ^ 3 := rfl
  rw [mask, Nat.and_two_pow]
  cases flags.testBit 3 <;> simp

theorem lookup_refused_iff (memory : Memory) (mbInfo : Nat) :
    (mbInfo = 0 ∨ (multibootInfo memory mbInfo).flags &&& (1 <<< 3) = 0 ∨
        (multibootInfo memory mbInfo).modsCount = 0) ↔
      ¬ (ModulesFlag memory mbInfo ∧ (multibootInfo memory mbInfo).modsCount ≠ 0) := by
  rw [flag_masked, ModulesFlag]
  cases (multibootInfo memory mbInfo).flags.testBit 3 <;> simp
  tauto

/-- What the lookup ends with: one and the outputs of the first module that
contains the name, or zero and the outputs as they were. -/
def LooksUp (memory : Memory) (mbInfo : Nat) (name : List Byte)
    (texts : Nat → Option (List Byte)) (outputs : Outputs) (result : Option (Nat × Outputs)) :
    Prop :=
  (∃ i, ModulesFlag memory mbInfo ∧ i < (multibootInfo memory mbInfo).modsCount ∧
      FirstContaining name texts i ∧
      result = some (1, (moduleAt memory (multibootInfo memory mbInfo).modsAddr i).outputs)) ∨
    (¬ (ModulesFlag memory mbInfo ∧
        ∃ i, i < (multibootInfo memory mbInfo).modsCount ∧ Contains name (texts i)) ∧
      result = some (0, outputs))

/-- The lookup takes the first module with a string that contains the name; it
rests on the leftmost occurrence that `strstr` finds in any two strings. -/
theorem multiboot_looks_up (rounds : Nat) (memory : Memory) (mbInfo nameAddress : Nat)
    (name : List Byte) (texts : Nat → Option (List Byte)) (outputs : Outputs)
    (named : StringAt memory nameAddress name)
    (strings : ModulesFlag memory mbInfo → ∀ i, i < (multibootInfo memory mbInfo).modsCount →
      StringOrNull memory
        (moduleAt memory (multibootInfo memory mbInfo).modsAddr i).string (texts i))
    (enough : name.length < rounds)
    (textsEnough : ∀ i text, i < (multibootInfo memory mbInfo).modsCount →
      texts i = some text → text.length < rounds) :
    LooksUp memory mbInfo name texts outputs
        (multibootFindModule rounds memory mbInfo outputs nameAddress) ∧
      ∀ haystack needleAddress hay needle, StringAt memory haystack hay →
        StringAt memory needleAddress needle → hay.length < rounds → needle.length < rounds →
        ∃ result, strstr rounds memory haystack needleAddress = some result ∧
          Found haystack hay needle result := by
  refine ⟨?_, fun haystack needleAddress hay needle hayString string hayEnough needleEnough =>
    strstr_finds hayString string rounds hayEnough needleEnough⟩
  rw [LooksUp, multibootFindModule]
  have guard := lookup_refused_iff memory mbInfo
  by_cases goes : ModulesFlag memory mbInfo ∧ (multibootInfo memory mbInfo).modsCount ≠ 0
  · rw [if_neg (fun refused => guard.mp refused goes)]
    have count : 0 + (multibootInfo memory mbInfo).modsCount =
        (multibootInfo memory mbInfo).modsCount := Nat.zero_add _
    have known : ∀ j, j < 0 + (multibootInfo memory mbInfo).modsCount → StringOrNull memory
        (moduleAt memory (multibootInfo memory mbInfo).modsAddr j).string (texts j) :=
      fun j bound => strings goes.1 j (by omega)
    have searched := find_module_from named rounds enough
      (multibootInfo memory mbInfo).modsAddr outputs (multibootInfo memory mbInfo).modsCount 0
      known (fun j text bound => textsEnough j text (by omega)) (fun j bound => by omega)
    rw [count] at searched
    rcases searched with ⟨i, bound, first, result⟩ | ⟨absent, result⟩
    · exact .inl ⟨i, goes.1, bound, first, result⟩
    · apply Or.inr
      constructor
      · rintro ⟨-, i, bound, contains⟩
        exact absent i bound contains
      · exact result
  · rw [if_pos (guard.mpr goes)]
    apply Or.inr
    constructor
    · rintro ⟨flagged, i, bound, -⟩
      exact goes ⟨flagged, by omega⟩
    · rfl

def bootMemory : Memory := fun address =>
  if address < 8192 then
    ([8, 0, 0, 0, 0, 0, 0, 0, 0, 0, 0, 0, 0, 0, 0, 0, 0, 0, 0, 0, 2, 0, 0, 0, 28, 16, 0, 0,
      0, 0, 1, 0, 0, 0, 2, 0, 0, 0, 0, 0, 0, 0, 0, 0,
      0, 0, 3, 0, 0, 0, 5, 0, 0, 32, 0, 0, 0, 0, 0, 0] : List Byte).getD (address - 4096) 0
  else if address < 12288 then [97, 98].getD (address - 8192) 0
  else [98].getD (address - 12288) 0

def bootTexts (i : Nat) : Option (List Byte) := if i = 1 then some [97, 98] else none

theorem multiboot_looks_up_second :
    StringAt bootMemory 12288 [98] ∧ ModulesFlag bootMemory 4096 ∧
      multibootFindModule 3 bootMemory 4096 ⟨0, 0⟩ 12288 = some (1, ⟨0x30000, 0x20000⟩) ∧
      LooksUp bootMemory 4096 [98] bootTexts ⟨0, 0⟩
        (multibootFindModule 3 bootMemory 4096 ⟨0, 0⟩ 12288) :=
  have named : StringAt bootMemory 12288 [98] := ⟨⟨rfl, by decide, rfl⟩, by decide, by decide⟩
  have count : (multibootInfo bootMemory 4096).modsCount = 2 := by decide +kernel
  have strings : ∀ i, i < (multibootInfo bootMemory 4096).modsCount →
      StringOrNull bootMemory
        (moduleAt bootMemory (multibootInfo bootMemory 4096).modsAddr i).string (bootTexts i) := by
    intro i bound
    rw [count] at bound
    match i, bound with
    | 0, _ => exact (by decide +kernel : (moduleAt bootMemory 4124 0).string = 0)
    | 1, _ =>
        have address : (moduleAt bootMemory (multibootInfo bootMemory 4096).modsAddr 1).string =
            8192 := by decide +kernel
        rw [address]
        exact ⟨⟨rfl, by decide, rfl, by decide, rfl⟩, by decide, by decide⟩
  have textsEnough : ∀ i text, i < (multibootInfo bootMemory 4096).modsCount →
      bootTexts i = some text → text.length < 3 := by
    intro i text _ named_text
    rw [bootTexts] at named_text
    split_ifs at named_text
    rw [← Option.some.inj named_text]
    decide
  ⟨named, ⟨by decide, by decide +kernel⟩, by decide +kernel,
    (multiboot_looks_up 3 bootMemory 4096 12288 [98] bootTexts ⟨0, 0⟩ named (fun _ => strings)
      (by decide) textsEnough).1⟩

end LumenOS.ModuleLookup
