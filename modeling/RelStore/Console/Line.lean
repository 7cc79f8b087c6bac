import RelStore.Text.Grapheme

/-!
# Typed lines

A line is what remains of what was typed: a backspace takes back the cluster before it. Of a
cluster no more is remembered than its size in bytes, and that in one byte, so that of a
cluster of 256 bytes only the bytes beyond a multiple of 256 are taken back, from its end. If
they begin within a character the line is broken. `line?_of_not_mem` says that a line without
backspaces is as it was typed.
-/

namespace RelStore.Console

/-- A backspace. -/
def backspace : Char := '\x08'

/-- What of a line was typed so far. -/
structure Typed where
  /-- The characters, the last first. -/
  text : List Char := []
  /-- What the next backspaces take back, in bytes. -/
  sizes : List UInt8 := []

/-- The text without so many bytes at its end; its last character comes first. There is none
where a character would have to be cut. -/
def dropBytes : Nat → List Char → Option (List Char)
  | 0, text => some text
  | _ + 1, [] => none
  | n + 1, c :: earlier =>
    if c.utf8Size ≤ n + 1 then dropBytes (n + 1 - c.utf8Size) earlier else none

namespace Typed

/-- Types one cluster. A backspace with nothing before it does nothing. -/
def press (typed : Typed) (cluster : List Char) : Option Typed :=
  if cluster = [backspace] then
    match typed.sizes with
    | [] => some typed
    | size :: sizes => (dropBytes size.toNat typed.text).map fun text => { text, sizes }
  else some {
    text := cluster.reverse ++ typed.text
    sizes := .ofNat (String.ofList cluster).utf8ByteSize :: typed.sizes }

/-- Types clusters one after the other. -/
def pressAll (typed : Typed) : List (List Char) → Option Typed
  | [] => some typed
  | cluster :: rest => (typed.press cluster).bind (·.pressAll rest)

/-- The line that remains of what was typed, unless it is broken. -/
def line? (text : List Char) : Option (List Char) :=
  (pressAll {} (Text.Grapheme.clusters text)).map (·.text.reverse)

theorem text_pressAll {clusters : List (List Char)} (h : [backspace] ∉ clusters)
    (typed : Typed) :
    (typed.pressAll clusters).map (·.text.reverse) =
      some (typed.text.reverse ++ clusters.flatten) := by
  induction clusters generalizing typed with
  | nil => simp [pressAll]
  | cons cluster rest ih =>
    have hc : cluster ≠ [backspace] := by rintro rfl; simp at h
    have hr : [backspace] ∉ rest := fun hr => h (by simp [hr])
    simp [pressAll, press, hc, ih hr]

/-- A line without backspaces is as it was typed. -/
theorem line?_of_not_mem {text : List Char} (h : backspace ∉ text) : line? text = some text := by
  have hc : [backspace] ∉ Text.Grapheme.clusters text := by
    intro hm
    apply h
    rw [← Text.Grapheme.flatten_clusters text]
    exact List.mem_flatten.2 ⟨_, hm, by simp⟩
  simp [line?, text_pressAll hc, Text.Grapheme.flatten_clusters]

end Typed

end RelStore.Console
