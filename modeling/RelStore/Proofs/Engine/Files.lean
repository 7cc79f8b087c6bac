import RelStore.Engine.State
import RelStore.Proofs.Engine.Database
import RelStore.Proofs.Files.Flat
import RelStore.Proofs.Text.Utf8

/-!
# The files behind an engine

A sink over a flat directory is a port together with a map from names to contents: appending
goes through if the port lets it (`append_of_ok`) and changes no contents otherwise
(`append_of_error`). The catalog and the tables are read from the contents alone
(`load_catalog`, `load_table`).
-/

namespace RelStore

open Sql (IsWord)
open Text.Utf8 (Bytes)

/-- What a sink lets through. -/
def Sink.port (s : Sink) : Port where
  faults := s.faults
  targetCalls := s.targetCalls
  writeCalls := s.writeCalls
  fits name := s.directory.Fits name

/-- A sink over a flat directory with this port and these contents. -/
structure Sink.Holds (s : Sink) (port : Port) (contents : String → Bytes) : Prop where
  flat : s.directory.Flat
  port : s.port = port
  contents : s.directory.contents = contents

variable {port port' : Port} {contents : String → Bytes} {name : String}

theorem Sink.Holds.fits_iff {s : Sink} (h : s.Holds port contents) (name : String) :
    s.directory.Fits name ↔ port.fits name = true := by
  rw [← h.port]
  exact decide_eq_true_iff.symm

/-- A sink that goes on over other files, as far as a port tells. -/
theorem Sink.port_eq {s s' : Sink} (hfaults : s'.faults = s.faults)
    (hframe : Directory.SameFrame s.directory s'.directory) :
    s'.port = { s.port with targetCalls := s'.targetCalls, writeCalls := s'.writeCalls } := by
  unfold Sink.port
  rw [hfaults, funext fun name => decide_eq_decide.2 (hframe.fits_iff name)]

namespace Sink

variable {s : Sink}

/-- A sink whose target is the file of this name. -/
def Aims (s : Sink) (name : String) : Prop :=
  (∃ path, s.writer.target = some ⟨path, s.directory.location ++ [name]⟩) ∧
    s.directory.get? (s.directory.location ++ [name]) = some (.file (s.directory.contents name))

theorem setTarget_of_fits (h : s.directory.Flat) (hw : IsWord name)
    (hfault : s.faults.target s.targetCalls = false) (hfits : s.directory.Fits name) :
    ∃ s', s.setTarget name = (.ok (), s') ∧ s'.Aims name ∧
      s'.Holds { s.port with targetCalls := s.targetCalls + 1 } s.directory.contents := by
  obtain ⟨made, ht, hm, hframe, hc, hg⟩ := Directory.touch_word h hw hfits
  have hset : s.writer.setTarget name =
      (.ok (), { directory := made, target := some ⟨name, s.directory.location ++ [name]⟩ }) := by
    unfold Writer.setTarget
    rw [show s.writer.directory.touch name = _ from ht]
  unfold setTarget
  rw [if_neg (ne_true_of_eq_false hfault), hset]
  rw [← hframe.location, ← hc] at hg
  exact ⟨_, rfl, ⟨⟨name, by rw [← hframe.location]; rfl⟩, hg⟩, hm, port_eq rfl hframe, hc⟩

theorem setTarget_of_fault (h : s.directory.Flat) (name : String)
    (hfault : s.faults.target s.targetCalls = true) :
    ∃ s', s.setTarget name = (.error .io, s') ∧
      s'.Holds { s.port with targetCalls := s.targetCalls + 1 } s.directory.contents := by
  unfold setTarget
  rw [if_pos hfault]
  exact ⟨_, rfl, h, port_eq rfl ⟨rfl, rfl⟩, rfl⟩

theorem setTarget_of_not_fits (h : s.directory.Flat) (hw : IsWord name)
    (hfits : ¬ s.directory.Fits name) :
    ∃ s', s.setTarget name = (.error .io, s') ∧
      s'.Holds { s.port with targetCalls := s.targetCalls + 1 } s.directory.contents := by
  have hset : s.writer.setTarget name = (.error .io, s.writer.dispose) := by
    unfold Writer.setTarget
    rw [show s.writer.directory.touch name = _ from Directory.touch_of_not_fits h hw hfits]
  unfold setTarget
  by_cases hfault : s.faults.target s.targetCalls = true
  · rw [if_pos hfault]
    exact ⟨_, rfl, h, port_eq rfl ⟨rfl, rfl⟩, rfl⟩
  · rw [if_neg hfault, hset]
    exact ⟨_, rfl, h, port_eq rfl ⟨rfl, rfl⟩, rfl⟩

theorem write_of_fault (h : s.Holds port contents) (bytes : Bytes)
    (hfault : port.faults.write port.writeCalls = true) :
    ∃ s', s.write bytes = (false, s') ∧
      s'.Holds { port with writeCalls := port.writeCalls + 1 } contents := by
  obtain ⟨hflat, rfl, rfl⟩ := h
  unfold write
  rw [if_pos (show s.faults.write s.writeCalls = true from hfault)]
  exact ⟨_, rfl, hflat, port_eq rfl ⟨rfl, rfl⟩, rfl⟩

theorem write_of_aims (h : s.Holds port contents) (ha : s.Aims name) (bytes : Bytes)
    (hfault : port.faults.write port.writeCalls = false) :
    ∃ s', s.write bytes = (true, s') ∧
      s'.Holds { port with writeCalls := port.writeCalls + 1 }
        (Function.update contents name (contents name ++ bytes)) := by
  obtain ⟨hflat, rfl, rfl⟩ := h
  obtain ⟨⟨path, ht⟩, hg⟩ := ha
  have hwrite : s.writer.write bytes = (true, { s.writer with
      directory := s.directory.append (s.directory.location ++ [name]) bytes }) := by
    unfold Writer.write
    dsimp only
    rw [ht]
    rfl
  obtain ⟨hf, hframe, hc⟩ := Directory.contents_append hflat hg bytes
  unfold write
  rw [if_neg (ne_true_of_eq_false (show s.faults.write s.writeCalls = false from hfault)), hwrite]
  exact ⟨_, rfl, hf, port_eq rfl hframe, hc⟩

end Sink

theorem Port.fits_append (p : Port) (name : String) : (p.append name).2.fits = p.fits := by
  unfold Port.append
  dsimp only
  split_ifs <;> rfl

/-! ## Reading -/

section

variable {s : Sink}

theorem isWord_reserved : IsWord Catalog.reserved :=
  ⟨by decide, List.all_eq_true.1 (by decide)⟩

/-- A table is read from the contents of its file. -/
theorem load_table (h : s.Holds port contents) (hw : IsWord name) (hfits : port.fits name = true)
    (order : Index.Order) :
    Table.load name order s.directory = Table.ofLog name order (contents name) := by
  unfold Table.load
  rcases Directory.lookup_of_fits h.flat hw ((h.fits_iff name).2 hfits) with hl | ⟨hl, hc⟩
  · rw [hl, h.contents]
  · rw [hl, ← h.contents, hc]
    rfl

theorem namesOf_flatMap {names : List String} (h : ∀ name ∈ names, IsWord name) :
    Catalog.namesOf (names.flatMap fun name => name.toList ++ ['\n']) = names := by
  induction names with
  | nil => rfl
  | cons name names ih =>
    rw [List.forall_mem_cons] at h
    have hn : '\n' ∉ name.toList := h.1.not_mem (by decide)
    have he : (!name.toList.isEmpty) = true := by
      rw [List.isEmpty_eq_false_iff.2 h.1.1]; rfl
    have ih := ih h.2
    unfold Catalog.namesOf at ih ⊢
    rw [List.flatMap_cons, List.append_assoc, List.singleton_append,
      List.splitOn_append_cons_self_of_not_mem hn]
    simp only [List.filter_cons, he, if_true]
    rw [List.map_cons, ih, String.ofList_toList]

/-- The catalog is read from the records of its names. -/
theorem load_catalog (h : s.Holds port contents) (hfits : port.fits Catalog.reserved = true)
    {names : List String} (hc : contents Catalog.reserved = names.flatMap Catalog.record)
    (hw : ∀ name ∈ names, IsWord name) (hnodup : names.Nodup) :
    ∃ catalog, Catalog.load s.directory = .ok catalog ∧ catalog.tables = names := by
  have hd : Text.Utf8.decode? (contents Catalog.reserved) =
      some (names.flatMap fun name => name.toList ++ ['\n']) := by
    have he : names.flatMap Catalog.record =
        Text.Utf8.encode (names.flatMap fun name => name.toList ++ ['\n']) := by
      unfold Text.Utf8.encode
      rw [List.flatMap_assoc]
      refine congrArg (List.flatMap · names) (funext fun name => ?_)
      exact (Text.Utf8.encode_append name.toList ['\n']).symm
    rw [hc, he, Text.Utf8.decode?_encode]
  have hnames : (Catalog.ofNames names).tables = names := by
    have hk : (names.map fun name => (name, ())).map Prod.fst = names := by
      rw [List.map_map]; exact List.map_id names
    have hi : (OrderedMap.ofList (names.map fun name => (name, ()))).entries = _ :=
      OrderedMap.entries_insertMany (m := ∅) (hk.symm ▸ hnodup)
    exact (congrArg (List.map Prod.fst) hi).trans hk
  refine ⟨Catalog.ofNames names, ?_, hnames⟩
  unfold Catalog.load
  rcases Directory.lookup_of_fits h.flat isWord_reserved ((h.fits_iff _).2 hfits) with hl | ⟨hl, hm⟩
  · rw [hl, h.contents]
    dsimp only
    rw [hd]
    dsimp only
    rw [namesOf_flatMap hw]
  · rw [h.contents] at hm
    rw [hm] at hd
    have ht : names.flatMap (fun name => name.toList ++ ['\n']) = [] := (Option.some.inj hd).symm
    have hn := namesOf_flatMap hw
    rw [ht] at hn
    rw [hl, ← hn]
    rfl

end

/-! ## Writing -/

namespace Engine

variable {e : Engine}

/-- What appending does: it goes through if the port lets it, and changes nothing otherwise. -/
theorem append_spec (h : e.sink.Holds port contents) (hw : IsWord name) (bytes : Bytes) :
    (∃ sink port', port.append name = (.ok (), port') ∧ append name bytes e = .ok () { e with sink } ∧
      sink.Holds port' (Function.update contents name (contents name ++ bytes))) ∨
    (∃ sink port' error, port.append name = (.error error, port') ∧
      append name bytes e = .error error { e with sink } ∧ sink.Holds port' contents) := by
  have hfits := h.fits_iff name
  obtain ⟨hflat, rfl, rfl⟩ := h
  unfold Port.append append
  dsimp only
  by_cases hfault : e.sink.faults.target e.sink.targetCalls = true
  · obtain ⟨s', hs, hh⟩ := Sink.setTarget_of_fault hflat name hfault
    rw [hs, if_pos (by rw [Bool.or_eq_true]; exact .inl hfault)]
    exact .inr ⟨s', _, _, rfl, rfl, hh⟩
  by_cases hfit : e.sink.directory.Fits name
  · obtain ⟨s', hs, ha, hh⟩ :=
      Sink.setTarget_of_fits hflat hw (Bool.eq_false_iff.2 hfault) hfit
    rw [hs, if_neg (by rw [hfits.1 hfit, Bool.not_true, Bool.or_false]; exact hfault)]
    cases hwrite : e.sink.faults.write e.sink.writeCalls with
    | true =>
      obtain ⟨s'', hs', hh'⟩ := Sink.write_of_fault hh bytes hwrite
      rw [if_pos (show e.sink.port.faults.write e.sink.port.writeCalls = true from hwrite)]
      dsimp only
      rw [hs']
      exact .inr ⟨s'', _, _, rfl, rfl, hh'⟩
    | false =>
      obtain ⟨s'', hs', hh'⟩ := Sink.write_of_aims hh ha bytes hwrite
      rw [if_neg (ne_true_of_eq_false
        (show e.sink.port.faults.write e.sink.port.writeCalls = false from hwrite))]
      dsimp only
      rw [hs']
      exact .inl ⟨s'', _, rfl, rfl, hh'⟩
  · obtain ⟨s', hs, hh⟩ := Sink.setTarget_of_not_fits hflat hw hfit
    have hnot : e.sink.port.fits name = false := Bool.eq_false_iff.2 (mt hfits.2 hfit)
    rw [hs, if_pos (by rw [hnot, Bool.not_false, Bool.or_true])]
    exact .inr ⟨s', _, _, rfl, rfl, hh⟩

end Engine

end RelStore
