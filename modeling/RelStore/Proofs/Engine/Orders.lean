import RelStore.Proofs.Engine.Durable
import RelStore.Proofs.Engine.Twins

/-!
# The order of the indexes cannot be observed

Two engines that differ in the orders of their indexes build different trees over the same rows
(`Engine.Alike`). They answer every call alike and make the same calls of their sinks
(`Alike.react`), and so they do when both are reopened, each with an order of its own
(`Session.Alike.serve`). All that is learned of a session from its opening on is therefore the same
(`account_of_orders`).
-/

namespace RelStore

open Sql (Statement)

/-! ## What is learned of a session -/

/-- What is asked of a session: a call of its engine, or to reopen it. -/
inductive Demand where
  | call (call : Call)
  | reopen (order : Option UInt64)

/-- Demands that differ at most in the orders that an engine is reopened with, none of which an
engine would refuse. -/
inductive Demand.Alike : Demand → Demand → Prop
  | call (call : Call) : Alike (.call call) (.call call)
  | reopen {order order' : Option UInt64} : (∀ k ∈ order, 3 ≤ k) → (∀ k ∈ order', 3 ≤ k) →
    Alike (.reopen order) (.reopen order')

/-- The answer of a session: the reply of its engine, or whether it could be reopened. -/
def Session.serve (s : Session) : Demand → (Reply ⊕ Except Error Unit) × Session
  | .call call => (.inl (s.engine.react call).1, { s with engine := (s.engine.react call).2 })
  | .reopen order => (.inr (s.reopen order).1, (s.reopen order).2)

/-- What is learned of a session: whether it could be opened, the answers to all that was asked of
it, the calls of its sink with their bytes, and the files in the end. -/
structure Account where
  opened : Except Error Unit
  answers : List (Reply ⊕ Except Error Unit)
  calls : List SinkCall
  files : Directory

/-- What is learned of a session that is opened in a directory and asked for all this. -/
def account (config : Config) (around : Directory) (faults : Faults) (demands : List Demand) :
    Account :=
  match Engine.openIn config around faults with
  | (.error error, around) =>
    { opened := .error error, answers := [], calls := [], files := around }
  | (.ok engine, around) =>
    let (answers, s) := run Session.serve ⟨config, engine⟩ demands
    { opened := .ok ()
      answers
      calls := s.engine.sink.calls.reverse
      files := s.engine.directory.seenFrom around }

/-! ## Engines with different trees -/

namespace Engine

/-- Nothing but the orders is different, and so the trees of the tables. -/
inductive Alike (e : Engine) : Engine → Prop
  | intro {order : Index.Order} {tables : OrderedMap String Table} :
    (∀ name, Option.Rel Table.Alike (e.tables.get? name) (tables.get? name)) →
    Alike e { e with order, tables }

theorem twins_append (name : String) (bytes : Text.Utf8.Bytes) :
    Twins Alike Eq (append name bytes) (append name bytes) := by
  rintro e _ @⟨order, tables, htables⟩
  obtain ⟨answer, sink, hrun⟩ := append_of_sink e.sink name bytes
  rw [hrun e rfl, hrun { e with order, tables } rfl]
  cases answer with
  | ok => exact .ok rfl ⟨htables⟩
  | error error => exact .error error ⟨htables⟩

/-- Statements see no more of two engines than what is alike. -/
theorem respects_alike (name : String) : Respects Alike name where
  isLocked := fun ⟨_⟩ => rfl
  taken := fun ⟨htables⟩ => ⟨htables⟩
  released := fun ⟨htables⟩ => ⟨htables⟩
  known := fun ⟨_⟩ => rfl
  register := fun ⟨htables⟩ => ⟨htables⟩
  append bytes _ := twins_append name bytes
  record _ := twins_append Catalog.reserved _
  held := fun ⟨htables⟩ => htables name
  file _ := fun ⟨_⟩ => rfl
  hold := fun ht ⟨htables⟩ => ⟨fun other => by
    rw [OrderedMap.get?_insert, OrderedMap.get?_insert]
    split_ifs
    · exact .some ht
    · exact htables other⟩

namespace Alike

variable {e e' : Engine}

theorem answer (h : e.Alike e') (sql : String) :
    (e'.answer sql).1 = (e.answer sql).1 ∧ (e.answer sql).2.Alike (e'.answer sql).2 := by
  cases hs : Statement.ofText sql with
  | error error =>
    rw [answer_of_error hs, answer_of_error hs]
    exact ⟨rfl, h⟩
  | ok s => exact (respects_alike s.table).answer hs h

theorem attempt (h : e.Alike e') (name : String) (s : Statement) :
    (e'.attempt name s).1 = (e.attempt name s).1 ∧
      (e.attempt name s).2.Alike (e'.attempt name s).2 := by
  unfold Engine.attempt
  match executeStatement s e, executeStatement s e', (respects_alike s.table).executeStatement h with
  | .ok _ e₁, _, .ok rfl ⟨htables⟩ => exact ⟨rfl, ⟨htables⟩⟩
  | .error _ e₁, _, .error error ⟨htables⟩ =>
    cases error with
    | tableAlreadyLocked table =>
      dsimp only
      rcases e₁.locks.wait name table e₁.lockWait with ⟨_ | ⟨_ | _⟩, locks⟩ <;>
        exact ⟨rfl, ⟨htables⟩⟩
    | _ => exact ⟨rfl, ⟨htables⟩⟩

theorem start (h : e.Alike e') (name sql : String) :
    (e'.start name sql).1 = (e.start name sql).1 ∧
      (e.start name sql).2.Alike (e'.start name sql).2 := by
  have hforget : (e.forget name).Alike (e'.forget name) := by
    obtain ⟨htables⟩ := h
    exact ⟨htables⟩
  unfold Engine.start
  cases Statement.ofText sql with
  | error error => exact ⟨rfl, hforget⟩
  | ok s => exact hforget.attempt name s

theorem poll (h : e.Alike e') (name : String) :
    Option.Rel (fun r r' => r'.1 = r.1 ∧ r.2.Alike r'.2) (e.poll name) (e'.poll name) := by
  obtain @⟨order, tables, htables⟩ := h
  unfold Engine.poll
  dsimp only
  rcases e.suspended.get? name with _ | s
  · exact .none
  · rcases e.locks.poll name with _ | ⟨_ | ⟨_ | _⟩, locks⟩
    · exact .none
    · exact .some ⟨rfl, ⟨htables⟩⟩
    · exact .some ⟨rfl, ⟨htables⟩⟩
    · have hready : Alike { e with locks } { e with order, tables, locks } := ⟨htables⟩
      exact .some (hready.attempt name s)

/-- Engines that are alike reply alike to every call, and are alike afterwards. -/
theorem react (h : e.Alike e') (call : Call) :
    (e'.react call).1 = (e.react call).1 ∧ (e.react call).2.Alike (e'.react call).2 := by
  cases call with
  | start name sql =>
    obtain ⟨hanswer, halike⟩ := h.start name sql
    exact ⟨congrArg (Reply.polled ∘ some) hanswer, halike⟩
  | poll name =>
    unfold Engine.react
    dsimp only
    match e.poll name, e'.poll name, h.poll name with
    | _, _, .some ⟨hanswer, halike⟩ => exact ⟨congrArg (Reply.polled ∘ some) hanswer, halike⟩
    | _, _, .none => exact ⟨rfl, h⟩
  | execute sql =>
    obtain ⟨hanswer, halike⟩ := h.answer sql
    exact ⟨congrArg Reply.executed hanswer, halike⟩
  | lock table =>
    obtain ⟨htables⟩ := h
    unfold Engine.react
    dsimp only
    cases e.locks.lock table <;> exact ⟨rfl, ⟨htables⟩⟩
  | guard name table =>
    obtain ⟨htables⟩ := h
    unfold Engine.react
    dsimp only
    cases e.locks.takeGuard name table <;> exact ⟨rfl, ⟨htables⟩⟩
  | cancel | advance | release | dropGuard =>
    obtain ⟨htables⟩ := h
    exact ⟨rfl, ⟨htables⟩⟩

end Alike

end Engine

/-! ## Opening -/

theorem Config.validate_order {order : UInt64} (h : 3 ≤ order) (config : Config) :
    { config with order }.validate =
      if config.dataDir = "" then .error (.invalidConfig "data_dir is empty") else .ok () := by
  unfold validate
  rw [if_neg (UInt64.not_lt.2 h)]

variable {config : Config} {a b : UInt64}

/-- Two engines that are opened on the same files, each with an order of its own. -/
theorem Engine.openOn_alike (ha : 3 ≤ a) (hb : 3 ≤ b) (sink : Sink) :
    Concur Engine.Alike (openOn { config with order := a } sink)
      (openOn { config with order := b } sink) := by
  have ha' : 3 ≤ a.toNat := UInt64.le_iff_toNat_le.1 ha
  have hb' : 3 ≤ b.toNat := UInt64.le_iff_toNat_le.1 hb
  have hload : Concur Engine.Alike (ofSink { config with order := a } ⟨_, ha'⟩ sink)
      (ofSink { config with order := b } ⟨_, hb'⟩ sink) := by
    unfold ofSink
    cases Catalog.load sink.directory with
    | error error => exact .error error
    | ok catalog => exact .ok ⟨fun _ => .none⟩
  unfold openOn
  rw [Config.validate_order ha, Config.validate_order hb]
  split_ifs
  · exact .error _
  · rw [show Index.Order.ofNat a.toNat = .ok ⟨_, ha'⟩ from dif_pos ha',
      show Index.Order.ofNat b.toNat = .ok ⟨_, hb'⟩ from dif_pos hb']
    exact hload

/-- Two engines that are opened in the same directory: what is made there is the same. -/
theorem Engine.openIn_alike (ha : 3 ≤ a) (hb : 3 ≤ b) (around : Directory) (faults : Faults) :
    Concur Engine.Alike (openIn { config with order := a } around faults).1
        (openIn { config with order := b } around faults).1 ∧
      (openIn { config with order := b } around faults).2 =
        (openIn { config with order := a } around faults).2 := by
  unfold openIn
  rw [Config.validate_order ha, Config.validate_order hb]
  split_ifs
  · exact ⟨.error _, rfl⟩
  · dsimp only
    rcases around.make config.dataDir with ⟨error | _, around⟩
    · exact ⟨.error error, rfl⟩
    · dsimp only
      cases around.enter? config.dataDir with
      | none => exact ⟨.error .io, rfl⟩
      | some directory => exact ⟨openOn_alike ha hb _, rfl⟩

/-! ## Sessions -/

namespace Session

/-- Sessions on engines that are alike, with orders that no engine would refuse. -/
inductive Alike : Session → Session → Prop
  | intro {config : Config} {a b : UInt64} {e e' : Engine} : 3 ≤ a → 3 ≤ b → e.Alike e' →
    Alike ⟨{ config with order := a }, e⟩ ⟨{ config with order := b }, e'⟩

variable {s s' : Session}

theorem Alike.sink (h : s.Alike s') : s'.engine.sink = s.engine.sink := by
  obtain ⟨-, -, ⟨-⟩⟩ := h
  rfl

theorem Alike.reopen (h : s.Alike s') {order order' : Option UInt64} (horder : ∀ k ∈ order, 3 ≤ k)
    (horder' : ∀ k ∈ order', 3 ≤ k) :
    (s.reopen order).1 = (s'.reopen order').1 ∧ (s.reopen order).2.Alike (s'.reopen order').2 := by
  obtain @⟨config, a, b, e, _, ha, hb, ⟨htables⟩⟩ := h
  have hconfigured (k : UInt64) (e : Engine) (order : Option UInt64) :
      configured ⟨{ config with order := k }, e⟩ order = { config with order := order.getD k } := by
    cases order <;> rfl
  have hgetD {k : UInt64} (hk : 3 ≤ k) {order : Option UInt64} (horder : ∀ k ∈ order, 3 ≤ k) :
      3 ≤ order.getD k := by
    cases order with
    | none => exact hk
    | some k => exact horder k rfl
  have ha₁ := hgetD ha horder
  have hb₁ := hgetD hb horder'
  rw [reopen_eq, reopen_eq, hconfigured, hconfigured]
  dsimp only
  match Engine.openOn { config with order := order.getD a } e.cancelAll.sink.dispose,
    Engine.openOn { config with order := order'.getD b } e.cancelAll.sink.dispose,
    Engine.openOn_alike ha₁ hb₁ e.cancelAll.sink.dispose with
  | _, _, .ok ⟨htables'⟩ => exact ⟨rfl, .intro ha₁ hb₁ ⟨htables'⟩⟩
  | _, _, .error error => exact ⟨rfl, .intro ha₁ hb₁ ⟨htables⟩⟩

/-- Whatever is asked of two sessions that are alike, they answer alike and stay alike. -/
theorem Alike.serve (h : s.Alike s') {demand demand' : Demand} (hd : demand.Alike demand') :
    (s.serve demand).1 = (s'.serve demand').1 ∧
      (s.serve demand).2.Alike (s'.serve demand').2 := by
  cases hd with
  | call call =>
    obtain ⟨ha, hb, he⟩ := h
    obtain ⟨hreply, halike⟩ := he.react call
    exact ⟨congrArg Sum.inl hreply.symm, .intro ha hb halike⟩
  | reopen horder horder' =>
    obtain ⟨hanswer, halike⟩ := h.reopen horder horder'
    exact ⟨congrArg Sum.inr hanswer, halike⟩

end Session

/-- For any two orders from three on, whatever directory an engine is opened in, whatever is asked of
it and whichever calls of its sink fail: the answers, the calls of the sink with their bytes and the
files in the end are the same, also if both engines are reopened, each time with any two orders. -/
theorem account_of_orders (ha : 3 ≤ a) (hb : 3 ≤ b) (around : Directory) (faults : Faults)
    {demands demands' : List Demand} (hdemands : List.Forall₂ Demand.Alike demands demands') :
    account { config with order := a } around faults demands =
      account { config with order := b } around faults demands' := by
  obtain ⟨hopened, haround⟩ := @Engine.openIn_alike config a b ha hb around faults
  unfold account
  generalize Engine.openIn { config with order := a } around faults = first,
    Engine.openIn { config with order := b } around faults = second at hopened haround ⊢
  obtain ⟨opened, around₁⟩ := first
  obtain ⟨opened', around₂⟩ := second
  obtain rfl : around₂ = around₁ := haround
  cases hopened with
  | error error => rfl
  | @ok e e' he =>
    have hs : Session.Alike ⟨{ config with order := a }, e⟩ ⟨{ config with order := b }, e'⟩ :=
      .intro ha hb he
    have hstep (demand demand' : Demand) (s s' : Session) (hd : demand.Alike demand')
        (h : s.Alike s') := h.serve hd
    obtain ⟨hanswers, hend⟩ := run_forall₂ hstep hdemands hs
    have hsink := hend.sink
    unfold Engine.directory
    dsimp only
    rw [hanswers, hsink]

/-- Three rows split the root of one tree and not that of the other; a statement waits for the table
until it is released, and then one engine is reopened with another order than before. The fourth write
of the sink fails. -/
theorem account_of_three_and_default :
    let faults : Faults := { write := (· == 4) }
    let demands (order : Option UInt64) : List Demand :=
      [.call (.execute "CREATE TABLE t (id INT)"), .call (.execute "INSERT INTO t (id) VALUES (1)"),
        .call (.execute "INSERT INTO t (id) VALUES (2)"), .call (.execute "INSERT INTO t (id) VALUES (3)"),
        .call (.execute "INSERT INTO t (id) VALUES (3)"), .call (.lock "t"),
        .call (.start "w" "DELETE FROM t WHERE id = 2"), .call (.release "t"), .call (.poll "w"),
        .reopen order, .call (.execute "SELECT id FROM t")]
    (3 : UInt64) ≤ 3 ∧ (3 : UInt64) ≤ 32 ∧
      List.Forall₂ Demand.Alike (demands (some 4)) (demands none) ∧
      account { order := 3 } .root faults (demands (some 4)) =
        account { order := 32 } .root faults (demands none) ∧
      (account { order := 3 } .root faults (demands (some 4))).calls.length = 15 := by
  intro faults demands
  have hfour : ∀ k ∈ some (4 : UInt64), 3 ≤ k := by
    rintro k ⟨⟩
    decide
  have hnone : ∀ k ∈ (none : Option UInt64), 3 ≤ k := nofun
  have hdemands : List.Forall₂ Demand.Alike (demands (some 4)) (demands none) :=
    .cons (.call _) <| .cons (.call _) <| .cons (.call _) <| .cons (.call _) <| .cons (.call _) <|
      .cons (.call _) <| .cons (.call _) <| .cons (.call _) <| .cons (.call _) <|
        .cons (.reopen hfour hnone) <| .cons (.call _) .nil
  exact ⟨by decide, by decide, hdemands,
    @account_of_orders {} 3 32 (by decide) (by decide) .root faults _ _ hdemands,
    by decide +kernel⟩

end RelStore
