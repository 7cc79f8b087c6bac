import RelStore.Files.Sink
import RelStore.Proofs.Files.Flat
import RelStore.Proofs.Run

/-!
# What a writer appends, and where

A caller of a writer sees its calls and whether they went through (`History`). From this alone it
is told which name is the target at any moment (`History.target`) and which bytes the file of a
name has received (`History.received`). The files agree: each grew by what it received, none was
made but by choosing its name, and nothing else changed (`appends_to_targets`). One call does so
(`Aims.appends`), with a target that always leads to a file that is there; a run follows by
induction (`Aims.appends_run`).
-/

namespace RelStore

open Text.Utf8 (Bytes)

/-- What stands somewhere once bytes have arrived there. Where nothing stood, nothing does unless
a file was made. -/
def Entry.grown (made : Prop) [Decidable made] (bytes : Bytes) : Option Entry → Option Entry
  | some .directory => some .directory
  | some (.file contents) => some (.file (contents ++ bytes))
  | none => if made then some (.file bytes) else none

/-! ## What a caller sees -/

namespace Writer

/-- A call of a writer, and whether it goes through. -/
def react (w : Writer) : SinkCall → Bool × Writer
  | .setTarget name => (w.setTarget name).map Except.isOk id
  | .write bytes => w.write bytes
  | .dispose => (true, w.dispose)

/-- Calls in order, each with whether it went through. -/
abbrev History := List (SinkCall × Bool)

namespace History

/-- The name that is the target behind a call. A name that could not be chosen leaves none. -/
def targetBehind (target : Option String) : SinkCall × Bool → Option String
  | (.setTarget name, true) => some name
  | (.setTarget _, false) => none
  | (.write _, _) => target
  | (.dispose, _) => none

/-- The name that is the target behind all calls, where `target` was it before. -/
def target (history : History) (target : Option String) : Option String :=
  history.foldl targetBehind target

/-- The bytes that one call sends to the file of a name. -/
def sent (name : String) (target : Option String) : SinkCall × Bool → Bytes
  | (.write bytes, true) => if target = some name then bytes else []
  | _ => []

/-- The bytes of all writes that went through while a name was the target, in order. -/
def received (name : String) : Option String → History → Bytes
  | _, [] => []
  | target, event :: rest => sent name target event ++ received name (targetBehind target event) rest

theorem received_singleton (name : String) (target : Option String) (event : SinkCall × Bool) :
    received name target [event] = sent name target event :=
  List.append_nil _

end History

/-- The files of a directory and the target behind calls, as far as a caller can tell. -/
structure Appends (d : Directory) (aim : Option String) (history : History) (after : Writer) :
    Prop where
  frame : Directory.SameFrame d after.directory
  file : ∀ name, after.directory.get? (d.location ++ [name]) =
    Entry.grown ((.setTarget name, true) ∈ history) (history.received name aim)
      (d.get? (d.location ++ [name]))
  elsewhere : ∀ location, (∀ name, location ≠ d.location ++ [name]) →
    after.directory.get? location = d.get? location
  target : after.target.map Target.path = history.target aim

end Writer

/-! ## Opening a name -/

namespace Directory

variable {d made : Directory} {name : String} {location : Location}

/-- A name leads to nothing but what stands under it, directories apart. -/
theorem location_of_place (hs : '/' ∉ name.toList)
    (h : (∃ contents, d.place name = .file location contents) ∨ d.place name = .free location) :
    location = d.location ++ [name] := by
  have ho : d.origin name = d.location := by
    rw [origin, isAbsolute_of_no_slash hs, if_neg Bool.false_ne_true]
  unfold place placeFrom at h
  rw [ho, endsInSlash_of_no_slash hs] at h
  by_cases hne : name.toList = []
  · have hn : Path.names name = [] := by simp [Path.names, hne]
    rw [hn] at h
    grind [follow]
  · rw [names_of_no_slash hs hne] at h
    grind [follow, step]

/-- A name that is opened stands in the directory as a file, which may be a new one. -/
theorem touch_of_no_slash (hs : '/' ∉ name.toList) (h : d.touch name = some (location, made)) :
    location = d.location ++ [name] ∧
      ((∃ contents, d.get? location = some (.file contents)) ∧ made = d ∨
        d.get? location = none ∧ made = d.put location (.file [])) := by
  unfold touch at h
  split at h
  next there contents hp =>
    obtain ⟨rfl, rfl⟩ : there = location ∧ d = made := by simpa using h
    exact ⟨location_of_place hs (.inl ⟨contents, hp⟩),
      .inl ⟨⟨contents, (get?_of_place_eq_file hp).1⟩, rfl⟩⟩
  next there hp =>
    rw [endsInSlash_of_no_slash hs, if_neg Bool.false_ne_true] at h
    obtain ⟨rfl, rfl⟩ : there = location ∧ d.put there (.file []) = made := by simpa using h
    exact ⟨location_of_place hs (.inr hp), .inr ⟨(get?_of_place_eq_free hp).2, rfl⟩⟩
  next => cases h

end Directory

/-! ## Growing -/

namespace Entry

variable {made made' : Prop} [Decidable made] [Decidable made'] {bytes : Bytes}

theorem grown_congr {bytes' : Bytes} (hm : made ↔ made') (hb : bytes = bytes')
    (entry : Option Entry) : grown made bytes entry = grown made' bytes' entry := by
  subst hb
  rcases entry with _ | _ | _
  · simp only [grown, hm]
  · rfl
  · rfl

theorem grown_nil (h : ¬ made) (entry : Option Entry) : grown made [] entry = entry := by
  cases entry with
  | none => exact if_neg h
  | some entry => cases entry <;> simp [grown]

/-- Growing twice. Nothing arrives where nothing stands and no file was made. -/
theorem grown_grown {entry : Option Entry} (h : entry = none → ¬ made → bytes = [])
    (bytes' : Bytes) :
    grown made' bytes' (grown made bytes entry) = grown (made ∨ made') (bytes ++ bytes') entry := by
  rcases entry with _ | _ | _
  · by_cases hm : made
    · simp [grown, hm]
    · simp [grown, hm, h rfl hm]
  · simp [grown]
  · rfl

end Entry

/-! ## One call -/

namespace Writer

variable {w : Writer}

/-- A target, if there is one, leads to a file that is there. -/
def Aims (w : Writer) : Prop :=
  ∀ target, w.target = some target →
    target.location = w.directory.location ++ [target.path] ∧
      ∃ contents, w.directory.get? target.location = some (.file contents)

theorem write_of_none (h : w.target = none) (bytes : Bytes) : w.write bytes = (false, w) := by
  rw [write, h]

theorem write_of_some {target : Target} (h : w.target = some target) (bytes : Bytes) :
    w.write bytes =
      (true, { w with directory := w.directory.append target.location bytes }) := by
  rw [write, h]

theorem write_fst (w : Writer) (bytes : Bytes) : (w.write bytes).1 = w.target.isSome := by
  unfold write
  cases w.target <;> rfl

/-- What a choice of a target comes to. -/
theorem setTarget_cases (w : Writer) (name : String) :
    (∃ location made, w.directory.touch name = some (location, made) ∧
      w.setTarget name = (.ok (), ⟨made, some ⟨name, location⟩⟩)) ∨
    w.setTarget name = (.error .io, w.dispose) := by
  unfold setTarget
  cases w.directory.touch name with
  | none => exact .inr rfl
  | some opened => exact .inl ⟨opened.1, opened.2, rfl, rfl⟩

variable {d : Directory} {aim : Option String} {event : SinkCall × Bool} {after : Writer}

/-- A call that chooses nothing and sends nothing. -/
theorem appends_still (hd : after.directory = d) (hm : ∀ name, event ≠ (.setTarget name, true))
    (hsent : ∀ name, History.sent name aim event = [])
    (ht : after.target.map Target.path = History.targetBehind aim event) :
    Appends d aim [event] after where
  frame := hd ▸ ⟨rfl, rfl⟩
  file name := by
    have hnot : (SinkCall.setTarget name, true) ∉ [event] := by
      simpa [eq_comm] using hm name
    rw [hd, History.received_singleton, hsent, Entry.grown_nil hnot]
  elsewhere _ _ := by rw [hd]
  target := ht

/-- A name that is chosen is the target then; its file is there. -/
theorem appends_chosen {made : Directory} {name : String} {location : Location}
    (hs : '/' ∉ name.toList) (h : d.touch name = some (location, made)) :
    Appends d aim [(.setTarget name, true)] ⟨made, some ⟨name, location⟩⟩ := by
  obtain ⟨rfl, ⟨⟨contents, hg⟩, rfl⟩ | ⟨hg, rfl⟩⟩ := Directory.touch_of_no_slash hs h
  · refine ⟨⟨rfl, rfl⟩, fun other => ?_, fun _ _ => rfl, rfl⟩
    by_cases he : other = name
    · subst he
      show made.get? _ = Entry.grown _ [] _
      simp [hg, Entry.grown]
    · exact (Entry.grown_nil (by simpa using he) _).symm
  · refine ⟨⟨rfl, rfl⟩, fun other => ?_, fun there hne => ?_, rfl⟩
    · show (d.put _ _).get? _ = Entry.grown _ [] _
      rw [Directory.get?_put (by simp)]
      by_cases he : other = name
      · subst he
        simp [hg, Entry.grown]
      · rw [if_neg (by simpa using he), Entry.grown_nil (by simpa using he)]
    · show (d.put _ _).get? _ = _
      rw [Directory.get?_put (by simp), if_neg (hne name)]

/-- Bytes that are written go behind what the file of the target holds. -/
theorem appends_written {name : String} {contents : Bytes} {target : Option Target}
    (ht : target.map Target.path = some name)
    (hg : d.get? (d.location ++ [name]) = some (.file contents)) (bytes : Bytes) :
    Appends d (some name) [(.write bytes, true)]
      ⟨d.append (d.location ++ [name]) bytes, target⟩ := by
  have happend : d.append (d.location ++ [name]) bytes =
      d.put (d.location ++ [name]) (.file (contents ++ bytes)) := by
    rw [Directory.append, hg]
  rw [happend]
  refine ⟨⟨rfl, rfl⟩, fun other => ?_, fun there hne => ?_, ht⟩
  · show (d.put _ _).get? _ = _
    rw [Directory.get?_put (by simp)]
    by_cases he : other = name
    · subst he
      simp [hg, Entry.grown, History.received, History.sent]
    · have hr : History.received other (some name) [(.write bytes, true)] = [] := by
        simp [History.received, History.sent, Ne.symm he]
      rw [if_neg (by simpa using he), hr, Entry.grown_nil (by simp)]
  · show (d.put _ _).get? _ = _
    rw [Directory.get?_put (by simp), if_neg (hne name)]

/-! ## Calls in a row -/

theorem aims_of_none (h : w.target = none) : w.Aims := by
  intro target ht
  rw [h] at ht
  cases ht

/-- One call keeps the target on a file that is there, and appends as a caller can tell. -/
theorem Aims.appends (h : w.Aims) {call : SinkCall}
    (hs : ∀ name, call = .setTarget name → '/' ∉ name.toList) :
    (w.react call).2.Aims ∧
      Appends w.directory (w.target.map Target.path) [(call, (w.react call).1)]
        (w.react call).2 := by
  cases call with
  | setTarget name =>
    rcases w.setTarget_cases name with ⟨location, made, ht, hset⟩ | hset
    · have hreact : w.react (.setTarget name) = (true, ⟨made, some ⟨name, location⟩⟩) := by
        rw [react, hset]
        rfl
      rw [hreact]
      obtain ⟨rfl, hmade⟩ := Directory.touch_of_no_slash (hs name rfl) ht
      have happends : Appends w.directory (w.target.map Target.path) _ _ :=
        appends_chosen (hs name rfl) ht
      refine ⟨?_, happends⟩
      rintro _ ⟨⟩
      refine ⟨congrArg (· ++ [name]) happends.frame.location.symm, ?_⟩
      rcases hmade with ⟨hg, rfl⟩ | ⟨-, rfl⟩
      · exact hg
      · exact ⟨[], by rw [Directory.get?_put (by simp), if_pos rfl]⟩
    · have hreact : w.react (.setTarget name) = (false, w.dispose) := by
        rw [react, hset]
        rfl
      rw [hreact]
      exact ⟨aims_of_none rfl, appends_still rfl (by simp) (fun _ => rfl) rfl⟩
  | write bytes =>
    cases ht : w.target with
    | none =>
      have hreact : w.react (.write bytes) = (false, w) := write_of_none ht bytes
      rw [hreact]
      exact ⟨h, appends_still rfl (by simp) (fun _ => rfl) (congrArg _ ht)⟩
    | some target =>
      have hreact := write_of_some ht bytes
      obtain ⟨hlocation, contents, hg⟩ := h target ht
      rw [hlocation] at hreact hg
      have happends := appends_written (congrArg (Option.map Target.path) ht) hg bytes
      rw [show w.react (.write bytes) = _ from hreact]
      refine ⟨fun target' ht' => ?_, happends⟩
      obtain rfl : target = target' := Option.some.inj (ht.symm.trans ht')
      rw [happends.frame.location, hlocation, happends.file target.path, hg]
      exact ⟨rfl, _, rfl⟩
  | dispose => exact ⟨aims_of_none rfl, appends_still rfl (by simp) (fun _ => rfl) rfl⟩

/-- A file that is not there receives nothing. -/
theorem Aims.sent_eq_nil (h : w.Aims) {name : String} (event : SinkCall × Bool)
    (hg : w.directory.get? (w.directory.location ++ [name]) = none) :
    History.sent name (w.target.map Target.path) event = [] := by
  unfold History.sent
  split
  · split_ifs with hn
    · obtain ⟨target, ht, rfl⟩ := Option.map_eq_some_iff.1 hn
      obtain ⟨hlocation, contents, hf⟩ := h target ht
      rw [hlocation, hg] at hf
      cases hf
    · rfl
  · rfl

/-- Calls in a row append what a caller can tell of all of them. -/
theorem Aims.appends_run (h : w.Aims) {calls : List SinkCall}
    (hs : ∀ name, .setTarget name ∈ calls → '/' ∉ name.toList) :
    Appends w.directory (w.target.map Target.path) (calls.zip (run react w calls).1)
      (run react w calls).2 := by
  induction calls generalizing w with
  | nil =>
    refine ⟨⟨rfl, rfl⟩, fun name => ?_, fun _ _ => rfl, rfl⟩
    exact (Entry.grown_nil List.not_mem_nil _).symm
  | cons call rest ih =>
    obtain ⟨haims, hfirst⟩ := h.appends fun name he => hs name (he ▸ List.mem_cons_self)
    have hrest := ih haims fun name hm => hs name (List.mem_cons_of_mem _ hm)
    rw [run_cons, List.zip_cons_cons]
    refine ⟨hfirst.frame.trans hrest.frame, fun name => ?_, fun location hne => ?_, ?_⟩
    · have hsecond := hrest.file name
      rw [hfirst.frame.location, hfirst.file, hfirst.target, History.received_singleton,
        Entry.grown_grown] at hsecond
      · rw [hsecond]
        exact Entry.grown_congr (by simp) rfl _
      · exact fun hg _ => h.sent_eq_nil _ hg
    · rw [hrest.elsewhere, hfirst.elsewhere location hne]
      rwa [hfirst.frame.location]
    · rw [hrest.target, hfirst.target]
      rfl

/-! ## Without a target -/

/-- A call after which there is no target: one that gives it up, or a choice that fails. -/
def Quits (w : Writer) (call : SinkCall) : Prop :=
  call = .dispose ∨ (∃ name, call = .setTarget name) ∧ (w.react call).1 = false

/-- Without a target, and until one is chosen, no call changes anything and no write goes through. -/
structure Rests (w : Writer) (calls : List SinkCall) : Prop where
  target : (run react w calls).2.target = none
  directory : (run react w calls).2.directory = w.directory
  refused : ∀ bytes, (.write bytes, true) ∉ calls.zip (run react w calls).1

theorem Quits.snd_react {call : SinkCall} (h : w.Quits call) : (w.react call).2 = w.dispose := by
  obtain rfl | ⟨⟨name, rfl⟩, ha⟩ := h
  · rfl
  · rcases w.setTarget_cases name with ⟨location, made, -, hset⟩ | hset
    · rw [react, hset] at ha
      cases ha
    · rw [react, hset]
      rfl

/-- A call that does not choose a target leaves a writer without one as it is. -/
theorem react_of_none (h : w.target = none) {call : SinkCall}
    (hc : ∀ name, (call, (w.react call).1) ≠ (.setTarget name, true)) :
    (w.react call).2 = w ∧ ∀ bytes, (call, (w.react call).1) ≠ (.write bytes, true) := by
  have hdispose : w.dispose = w := by
    rw [dispose, ← h]
  cases call with
  | setTarget name =>
    have ha : (w.react (.setTarget name)).1 = false := by simpa using hc name
    have hquits : w.Quits (.setTarget name) := .inr ⟨⟨name, rfl⟩, ha⟩
    exact ⟨hquits.snd_react.trans hdispose, by simp⟩
  | write bytes =>
    have hreact : w.react (.write bytes) = (false, w) := write_of_none h bytes
    rw [hreact]
    exact ⟨rfl, by simp⟩
  | dispose => exact ⟨hdispose, by simp⟩

theorem rests_of_none (h : w.target = none) {calls : List SinkCall}
    (hc : ∀ name, (.setTarget name, true) ∉ calls.zip (run react w calls).1) :
    w.Rests calls := by
  suffices hrun : (run react w calls).2 = w ∧
      ∀ bytes, (.write bytes, true) ∉ calls.zip (run react w calls).1 from
    ⟨by rw [hrun.1, h], by rw [hrun.1], hrun.2⟩
  induction calls with
  | nil => exact ⟨rfl, fun _ => List.not_mem_nil⟩
  | cons call rest ih =>
    rw [run_cons, List.zip_cons_cons] at hc ⊢
    simp only [List.mem_cons, not_or] at hc ⊢
    obtain ⟨hsame, hfirst⟩ := react_of_none h fun name => Ne.symm (hc name).1
    rw [hsame] at hc ⊢
    obtain ⟨hrest, hrefused⟩ := ih fun name => (hc name).2
    exact ⟨hrest, fun bytes => ⟨Ne.symm (hfirst bytes), hrefused bytes⟩⟩

/-- Whatever calls are made of a new writer, the names among them being single names: every file
holds what it held and behind that, in order, the bytes of the writes that went through while it
was the target, and a file is made only where its name is chosen. A write goes through as long as
there is a target; behind a call that leaves none, nothing is written until one is chosen. -/
theorem appends_to_targets (d : Directory) (calls : List SinkCall)
    (hs : ∀ name, .setTarget name ∈ calls → '/' ∉ name.toList) :
    let history := calls.zip (run react { directory := d } calls).1
    let after := (run react { directory := d } calls).2
    Appends d none history after ∧
      (∀ bytes, (after.write bytes).1 = (History.target history none).isSome) ∧
      ∀ call between, after.Quits call →
        (∀ name, (.setTarget name, true) ∉
          between.zip (run react (after.react call).2 between).1) →
        (after.react call).2.directory = after.directory ∧ (after.react call).2.Rests between := by
  intro history after
  have haims : Aims { directory := d } := aims_of_none rfl
  have happends : Appends d none history after := haims.appends_run hs
  refine ⟨happends, fun bytes => ?_, fun call between hquits hchosen => ?_⟩
  · rw [← happends.target, Option.isSome_map, write_fst]
  · rw [hquits.snd_react] at hchosen ⊢
    exact ⟨rfl, rests_of_none rfl hchosen⟩

/-- A directory in the way leaves no target, so that the next bytes get nowhere: not even into the
file that was the target before. -/
theorem appends_to_targets_between_failures :
    let d : Directory := { entries := .ofList [(["a"], .file [120]), (["d"], .directory)] }
    let calls : List SinkCall := [.setTarget "a", .write [49], .setTarget "d", .write [50],
      .setTarget "b", .write [51], .setTarget "a", .write [52], .dispose, .write [53]]
    (∀ name, .setTarget name ∈ calls → '/' ∉ name.toList) ∧
      (run react { directory := d } calls).1 =
        [true, true, false, false, true, true, true, true, true, false] ∧
      Appends d none (calls.zip (run react { directory := d } calls).1)
        (run react { directory := d } calls).2 ∧
      (run react { directory := d } calls).2.directory.lookup "a" = .file [120, 49, 52] ∧
      (run react { directory := d } calls).2.directory.lookup "b" = .file [51] := by
  intro d calls
  have hs : ∀ name, .setTarget name ∈ calls → '/' ∉ name.toList := by
    simp [calls]
  exact ⟨hs, by decide, (appends_to_targets d calls hs).1, by decide, by decide⟩

end Writer

end RelStore
