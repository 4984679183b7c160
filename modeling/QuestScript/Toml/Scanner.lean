/-! Scanners. A scanner finds a value at the start of a text, or nothing there. Its result says how
much of the text it has used, so that a scanner can be repeated as long as it uses some, without a
limit on the number of rounds. -/
namespace QuestScript.Toml

structure Found (α : Type) (cs : List Char) where
  value : α
  used : Nat
  rest : List Char
  used_add_length : used + rest.length = cs.length

structure Scanner (α : Type) where
  run : (cs : List Char) → Option (Found α cs)

namespace Scanner

variable {α β : Type}

def found (a : α) : Scanner α := ⟨fun cs => some ⟨a, 0, cs, Nat.zero_add _⟩⟩

def andThen (first : Scanner α) (next : α → Scanner β) : Scanner β := ⟨fun cs =>
  match first.run cs with
  | none => none
  | some ⟨a, used, rest, whole⟩ =>
    match (next a).run rest with
    | none => none
    | some ⟨b, more, rest', whole'⟩ => some ⟨b, used + more, rest', by omega⟩⟩

def orElse (first : Scanner α) (second : Unit → Scanner α) : Scanner α := ⟨fun cs =>
  match first.run cs with
  | none => (second ()).run cs
  | some result => some result⟩

instance : Monad Scanner where
  pure := found
  bind := andThen

instance : Alternative Scanner where
  failure := ⟨fun _ => none⟩
  orElse := orElse

def one (accepts : Char → Bool) : Scanner Char := ⟨fun
  | [] => none
  | c :: rest => if accepts c then some ⟨c, 1, rest, Nat.add_comm ..⟩ else none⟩

def char (c : Char) : Scanner Unit := discard (one fun d => d = c)

def word : List Char → Scanner Unit
  | [] => pure ()
  | c :: rest => do char c; word rest

def stretch (accepts : Char → Bool) : Scanner (List Char) := ⟨fun cs =>
  some ⟨cs.takeWhile accepts, (cs.takeWhile accepts).length, cs.dropWhile accepts, by
    rw [← List.length_append, List.takeWhile_append_dropWhile]⟩⟩

def ending : Scanner Unit := ⟨fun cs =>
  if cs.isEmpty then some ⟨(), 0, cs, Nat.zero_add _⟩ else none⟩

def times (scanner : Scanner α) : Nat → Scanner (List α)
  | 0 => pure []
  | n + 1 => do
    let a ← scanner
    return a :: (← times scanner n)

def rounds (scanner : Scanner α) (cs : List Char) : Found (List α) cs :=
  match scanner.run cs with
  | none => ⟨[], 0, cs, Nat.zero_add _⟩
  | some ⟨a, used, rest, whole⟩ =>
    if _progress : 0 < used then
      let later := rounds scanner rest
      ⟨a :: later.value, used + later.used, later.rest, by
        have := later.used_add_length
        omega⟩
    else ⟨[], 0, cs, Nat.zero_add _⟩
termination_by cs.length

def many (scanner : Scanner α) : Scanner (List α) := ⟨fun cs => some (rounds scanner cs)⟩

def separated (mark : Scanner Unit) (scanner : Scanner α) : Scanner (List α) := do
  let a ← scanner
  return a :: (← many (mark *> scanner))

end Scanner

end QuestScript.Toml
