import OrangeFrp.App.Service
import OrangeFrp.App.Serving

/-!
# The shutdown of `serve` (`frp-game-server/src/app.rs`, `command_serve`)

A stop cancels the accounting task, which drains its queue and flushes one last time,
and then the listeners. Nobody awaits the sessions, and nobody looks at the result of the
last flush. So two things can take bytes from the books: a session that sends its event
after the drain, and a flush that is refused, as it is when another process has saved.

* `accounted_saves`: when the save of a flush goes through.
* `saved_meter`: what the rows of a user read after a save.
* `Orderly`: the condition on the steps under which neither happens.
* `stop_counts`: in runs of such steps the database has every byte when `serve` returns.

It stands on runs of `Orderly` steps from a server's start: no event after the drain; a last
flush with nothing to do, or on a directory that holds the memory's configuration and nothing
else (`Flushable`); and after it no write that changes the stored counters.
-/
namespace OrangeFrp.App

open OrangeFrp.Core OrangeFrp.Core.Table OrangeFrp.Storage OrangeFrp.Controller

/-! ## When the save of a flush goes through -/

section
variable {P : Primitives} {disk : Disk} {c : ServerConfig} {pending : Pending}

theorem accounted_valid (hv : Valid P c) (pending : Pending) : Valid P (accounted c pending) := by
  have hcol : ∀ {α : Type} (f : ServerUser → α),
      (∀ u used traffic, f { u with trafficUsedBytes := used, trafficByProxy := traffic } = f u) →
      (accounted c pending).users.map f = c.users.map f := fun f hf => accounted_column f hf c pending
  refine ⟨hv.settings, accounted_userOk hv pending, ?_, ⟨?_, ?_, ?_, ?_⟩, ?_, accounted_sorted hv pending⟩
  · rw [accounted_tunnels]; exact hv.names
  · rw [hcol (·.account) fun _ _ _ => rfl]; exact hv.distinct.accounts
  · rw [hcol (·.id) fun _ _ _ => rfl]; exact hv.distinct.ids
  · rw [hcol (·.secret) fun _ _ _ => rfl]; exact hv.distinct.secrets
  · rw [show (accounted c pending).users.flatMap (·.tunnels) = c.tunnels from accounted_tunnels c pending]
    exact hv.distinct.tunnels
  · rw [accounted_tunnels]; exact hv.disjoint

/-- The rows of the candidate of a flush go in where its users are stored. -/
theorem accounted_written (hv : Valid P c) (hh : Holds disk.db c)
    (hfit : ∀ u ∈ (accounted c pending).users, CountersFit u) (revision : Int) :
    ∃ db, writeSnapshot disk.db { accounted c pending with revision := revision } = .ok db := by
  have hadm := (accounted_valid hv pending).distinct
  refine writeSnapshot_ok_iff.2 ⟨hfit, ?_, ?_⟩
  · refine (upsertAll_ok_iff _ _ (userRows_coherent hadm)).2 (OrderSafe.of_apart fun r hr x hx hne => ?_)
    obtain ⟨v, hvm, rfl⟩ := List.mem_map.1 hr
    obtain ⟨u, hu, rfl⟩ := List.mem_map.1 hvm
    -- the stored row of the user has the same account and secret
    have hu' := (hh.users _).2 ⟨u, hu, rfl⟩
    rw [accountUser_fields] at hne ⊢
    exact Bool.eq_false_iff.1 (disk.db.users.unique x (List.mem_of_mem_filter hx) (UserRow.of u) hu' hne)
  · have hrows : (accounted c pending).users.flatMap tunnelRows = c.users.flatMap tunnelRows := by
      rw [List.flatMap_def, accounted_column tunnelRows (fun _ _ _ => rfl), ← List.flatMap_def]
    show ∃ v, (deleteMissingUsers disk.db _).tunnels.upsertAll ((accounted c pending).users.flatMap tunnelRows) = .ok v
    rw [hrows]
    refine (upsertAll_ok_iff _ _ (tunnelRows_coherent hv.distinct hv.protocols)).2
      (OrderSafe.of_apart fun r hr x hx hne => ?_)
    have hr' := (hh.tunnels r).2 (mem_tunnelRows.1 hr)
    exact Bool.eq_false_iff.1 (disk.db.tunnels.unique x (List.mem_of_mem_filter hx) r hr' hne)

/-- **The save of a flush** goes through when the database mirrors the memory and the
counters fit. -/
theorem accounted_saves (h : Mirrored P disk c)
    (hfit : ∀ u ∈ (accounted c pending).users, CountersFit u) (e : Entropy) :
    ∃ r, (save P disk (accounted c pending) e).2 = .ok r := by
  have hclean : NoDash (accounted c pending) := by rw [NoDash, accounted_tunnels]; exact h.clean
  rw [save_succeeds_iff (initializeStore_settled h.holds h.unrecoverable e)]
  exact ⟨_, normalize_self P (accounted_valid h.valid pending) hclean _, ⟨_, h.holds.settings, rfl⟩,
    accounted_written h.valid h.holds hfit _⟩

/-! ## The counters in the database -/

/-- The reading of the rows of a user. -/
def dbMeter (db : Db) (userId : Str) : Meter → Nat
  | .used => ((db.users.find userId).map (·.trafficUsedBytes)).getD 0
  | .through name direction => trafficMeter (db.trafficOf userId) name direction

/-- The database has the counters of the configuration. -/
structure Counted (db : Db) (c : ServerConfig) : Prop where
  initialized : ∃ row, db.settings = some row
  meters : ∀ userId ∈ c.users.map (·.id), ∀ m, dbMeter db userId m = configMeter c userId m

theorem counted_of_users {db : Db} (hn : (c.users.map (·.id)).Nodup) {row : SettingsRow}
    (hset : db.settings = some row) (h : ∀ u ∈ c.users, ∀ m, dbMeter db u.id m = userMeter u m) :
    Counted db c := by
  refine ⟨⟨row, hset⟩, List.forall_mem_map.2 fun u hu m => ?_⟩
  rw [configMeter_of_mem hn hu, h u hu m]

theorem Counted.congr {db : Db} {k : ServerConfig} (h : Counted db c)
    (hs : List.Forall₂ SameMeters c.users k.users) : Counted db k := by
  refine ⟨h.initialized, fun userId hid m => ?_⟩
  rw [ids_of_sameMeters hs] at hid
  rw [configMeter_congr hs, h.meters userId hid m]

theorem dbMeter_samePasswords {db db' : Db} (hs : SameButPasswords db db') (userId : Str) (m : Meter) :
    dbMeter db' userId m = dbMeter db userId m := by
  cases m with
  | used =>
    have hfind : ∀ db : Db, dbMeter db userId .used =
        (((db.users.rows.map fun r => (r.id, r.trafficUsedBytes)).find? fun p => p.1 = userId).map
          (·.2)).getD 0 := by
      intro db
      rw [List.find?_map, Option.map_map]
      rfl
    rw [hfind, hfind, hs.column (fun r => (r.id, r.trafficUsedBytes)) fun _ => rfl]
  | through name direction =>
    simp only [dbMeter, Db.trafficOf, hs.traffic]

/-- A save that is refused leaves the counters alone. -/
theorem Counted.unsaved {P : Primitives} {disk disk' : Disk} (h : Counted disk.db c)
    (hu : Unsaved P disk disk') : Counted disk'.db c := by
  obtain ⟨row, hset⟩ := h.initialized
  have hs := hu.same hset
  refine ⟨⟨row, hs.settings.trans hset⟩, fun userId hid m => ?_⟩
  rw [dbMeter_samePasswords hs, h.meters userId hid m]

theorem Holds.used {db : Db} (hh : Holds db c) {u : ServerUser} (hu : u ∈ c.users) :
    dbMeter db u.id .used = userMeter u .used := by
  have hf : db.users.find u.id = some (UserRow.of u) :=
    Table.find_eq_some.2 ⟨(hh.users _).2 ⟨u, hu, rfl⟩, rfl⟩
  rw [dbMeter, hf]
  rfl

variable {disk' disk₁ : Disk} {k k' : ServerConfig} {e e' e₁ : Entropy}

/-- **What a save counts.** When no two users have a record of the same name, the rows read
as the configuration, but for old rows under names that it does not have. -/
theorem saved_meter (hs : Saved P disk k e disk' k' e' disk₁ e₁) (ha : Apart k')
    (hold : ∀ u ∈ k'.users, ∀ name, name ∉ u.trafficByProxy → ∀ direction,
      dbMeter disk₁.db u.id (.through name direction) = 0) {u : ServerUser} (hu : u ∈ k'.users)
    (m : Meter) : dbMeter disk'.db u.id m = userMeter u m := by
  have hv := hs.valid
  have hids := newIn_empty.1 hv.distinct.ids
  have htids := newIn_empty.1 hv.distinct.tunnels.ids
  cases m with
  | used => exact Holds.used hs.holds hu
  | through name direction =>
    show trafficMeter (disk'.db.trafficOf u.id) name direction = trafficMeter u.trafficByProxy name direction
    cases hl : u.trafficByProxy.lookup name with
    | some record =>
      have hf := find_written hs.written htids hv.sorted (newIn_empty.1 hv.distinct.accounts) hu hl
        fun v hvm hvn => by
          have hid := ha u hu v hvm name (Assoc.mem_iff_exists.2 ⟨record, hl⟩) hvn
          rw [List.inj_on_of_nodup_map hids hu hvm hid]
      have hl' : (disk'.db.trafficOf u.id).lookup name =
          some (cleared (staleNames disk₁.db k') (TrafficRow.of u name record)).toProxyTrafficRecord :=
        lookup_trafficOf_find.2 ⟨_, hf, rfl, rfl⟩
      rw [trafficMeter, trafficMeter, hl, hl']
      cases direction <;> rfl
    | none =>
      have hname : name ∉ u.trafficByProxy := by
        intro hm
        obtain ⟨record, hr⟩ := Assoc.mem_iff_exists.1 hm
        rw [hl] at hr
        cases hr
      rw [trafficMeter, trafficMeter, hl]
      cases hl' : (disk'.db.trafficOf u.id).lookup name with
      | none => rfl
      | some record =>
        obtain ⟨r, hf, hown, rfl⟩ := lookup_trafficOf_find.1 hl'
        rcases find_origin hs.written htids hf with ⟨v, hvm, record, hvl, rfl⟩ | ⟨r₀, h₀, -, rfl⟩
        · obtain rfl := List.inj_on_of_nodup_map hids hvm hu hown
          exact absurd (Assoc.mem_iff_exists.2 ⟨record, hvl⟩) hname
        · -- an old row, with the bytes it had
          obtain ⟨hm, hk⟩ := Table.find_eq_some.1 h₀
          have hl₀ : (disk₁.db.trafficOf u.id).lookup name = some r₀.toProxyTrafficRecord :=
            lookup_trafficOf.2 ⟨r₀, List.mem_of_mem_filter hm, hown, hk, rfl⟩
          have hzero := hold u hu name hname direction
          rw [dbMeter, trafficMeter, hl₀] at hzero
          rw [Option.map_none, Option.getD_none, ← hzero]
          cases direction <;> rfl

theorem mirrored_counted (h : Mirrored P disk c) : Counted disk.db c := by
  refine counted_of_users (newIn_empty.1 h.valid.distinct.ids) h.holds.settings fun u hu m => ?_
  cases m with
  | used => exact Holds.used h.holds hu
  | through name direction =>
    show trafficMeter (disk.db.trafficOf u.id) name direction = trafficMeter u.trafficByProxy name direction
    rw [trafficMeter, (h.recorded u hu).trafficOf_same (h.flagged u hu) name]
    rfl

theorem apart_of_sameNames (hn : List.Forall₂ SameButNames k.users k'.users) (ha : Apart k) : Apart k' := by
  intro u hu v hv name hun hvn
  obtain ⟨u₀, hu₀, hsu⟩ := exists_of_forall₂ hn hu
  obtain ⟨v₀, hv₀, hsv⟩ := exists_of_forall₂ hn hv
  rw [hsu.1] at hun ⊢
  rw [hsv.1] at hvn ⊢
  exact ha u₀ hu₀ v₀ hv₀ name hun hvn

/-- **A save counts** the configuration it has stored, if that has no fewer counters than
the one the database had. -/
theorem saved_counted (hc : Counted disk.db c)
    (hsave : save P disk k e = (disk', .ok (k', e')))
    (hn : List.Forall₂ SameButNames k.users k'.users) (ha : Apart k)
    (hids : k'.users.map (·.id) = c.users.map (·.id))
    (hless : ∀ userId ∈ c.users.map (·.id), ∀ m, configMeter k' userId m = 0 →
      configMeter c userId m = 0) : Counted disk'.db k' := by
  obtain ⟨disk₁, e₁, hs⟩ := save_saved hsave
  obtain ⟨row, hset⟩ := hc.initialized
  have hsame := (initializeStore_initialized hset hs.initialized).1
  have hkn := newIn_empty.1 hs.valid.distinct.ids
  refine counted_of_users hkn hs.holds.settings fun u hu m =>
    saved_meter hs (apart_of_sameNames hn ha) (fun v hv name hname direction => ?_) hu m
  have hid : v.id ∈ c.users.map (·.id) := hids ▸ List.mem_map_of_mem hv
  rw [dbMeter_samePasswords hsame, hc.meters v.id hid]
  refine hless v.id hid _ ?_
  rw [configMeter_of_mem hkn hv]
  show trafficMeter v.trafficByProxy name direction = 0
  cases hl : v.trafficByProxy.lookup name with
  | none => rw [trafficMeter, hl]; rfl
  | some record => exact absurd (Assoc.mem_iff_exists.2 ⟨record, hl⟩) hname

end

/-! ## The condition on the steps -/

/-- The accounting task takes no more events. -/
def Accounting.Over : Accounting → Prop
  | .closing | .finished => True
  | _ => False

section
variable {τ : Type} [Double τ] (P : Primitives)

/-- The last flush goes through: the directory holds the memory's configuration and nothing
else, so nobody else has saved and no rolled-back save left rows behind; no counter is too
large for SQLite, and no two users have a record of the same name. -/
structure Flushable (s : Service τ) : Prop where
  mirrored : Mirrored P s.disk s.config
  fits : ∀ u ∈ (accounted s.config s.pending).users, CountersFit u
  apart : Apart (accounted s.config s.pending)

/-- After its last drain the accounting task is sent nothing; its last flush has nothing to
do or goes through; and after it the counters of the database stay as they are. -/
def Orderly (s : Service τ) : ServiceAct → Prop
  | .peers act => s.accounting.Over → act.tells = false
  | .lastFlush _ =>
    if s.pending.entries = [] then Counted s.disk.db s.config else Flushable P s
  | .failedLastFlush => False
  | .write disk => s.accounting = .finished → Counted disk.db s.config
  | .request i (some submitted) env => s.accounting = .finished → ∀ a ts d,
      s.config.users[i]? = some a → normalizeUserTunnels s.config i a submitted env.draws = .ok (ts, d) →
        Apart (candidate s.config i a ts env.now)
  | .restore _ => s.accounting = .finished → Apart s.config
  | _ => True

end

/-! ## What every orderly step keeps -/

/-- After the drain all that was sent is received; after the last flush all that was
received is in memory and in the database. -/
structure Service.Accounted {τ : Type} (P : Primitives) (c : ServerConfig) (s : Service τ) : Prop where
  sound : s.Sound P c
  drained : s.accounting.Over → s.network.sent = s.network.taken
  received : s.accounting = .finished → ∀ userId ∈ c.users.map (·.id), ∀ m,
    configMeter s.config userId m = configMeter c userId m + meterOf s.network.taken userId m
  counted : s.accounting = .finished → Counted s.disk.db s.config

section
variable {τ : Type} [Double τ] {P : Primitives} {c : ServerConfig} {s t : Service τ}

omit [Double τ] in
/-- A step that changes none of the books but the directory. -/
theorem Service.Accounted.kept (h : s.Accounted P c) (ht : t.Sound P c)
    (ha : t.accounting = s.accounting) (hn : s.accounting.Over → t.network.sent = s.network.sent)
    (htaken : t.network.taken = s.network.taken)
    (hs : s.accounting = .finished → List.Forall₂ SameMeters s.config.users t.config.users)
    (hc : s.accounting = .finished → Counted t.disk.db t.config) : t.Accounted P c := by
  refine ⟨ht, fun hover => ?_, fun hf userId hid m => ?_, fun hf => hc (ha ▸ hf)⟩
  · rw [ha] at hover
    rw [hn hover, htaken, h.drained hover]
  · rw [ha] at hf
    rw [htaken, configMeter_congr (hs hf), h.received hf userId hid m]

omit [Double τ] in
/-- The accounting task is not over. -/
theorem Service.Accounted.running (ht : t.Sound P c) (ha : ¬ t.accounting.Over) : t.Accounted P c :=
  ⟨ht, fun hover => absurd hover ha, fun hf => absurd (hf ▸ trivial) ha,
    fun hf => absurd (hf ▸ trivial) ha⟩

omit [Double τ] in
/-- **An orderly last flush** leaves no sums, and the counters of the memory in the database. -/
theorem Service.flush_counted {e : Entropy} (ho : Orderly P s (.lastFlush e)) :
    (s.flush P e).pending = ∅ ∧ Counted (s.flush P e).disk.db (s.flush P e).config := by
  unfold Service.flush Ledger.flush
  by_cases hp : s.pending.entries = []
  · have hf : flushPending P s.disk s.config s.pending e = (s.disk, s.config, .ok ()) := if_pos hp
    have hc : Counted s.disk.db s.config := by simpa only [Orderly, if_pos hp] using ho
    simp only [Service.ledger, hf]
    exact ⟨rfl, hc⟩
  · obtain ⟨hm, hfit, hapart⟩ : Flushable P s := by simpa only [Orderly, if_neg hp] using ho
    obtain ⟨⟨stored, e'⟩, hok⟩ := accounted_saves hm hfit e
    have hsave : save P s.disk (accounted s.config s.pending) e =
        ((save P s.disk (accounted s.config s.pending) e).1, .ok (stored, e')) := Prod.ext rfl hok
    have hf : flushPending P s.disk s.config s.pending e =
        ((save P s.disk (accounted s.config s.pending) e).1, stored, .ok ()) := by
      rw [flushPending, if_neg hp, hsave]
    have hnames := accounted_sameNames hm.valid hsave
    have hmeters := sameMeters_of_sameNames hnames
    simp only [Service.ledger, hf]
    refine ⟨rfl, saved_counted (mirrored_counted hm) hsave hnames hapart ?_ fun userId hid m hzero => ?_⟩
    · rw [ids_of_sameMeters hmeters, accounted_column (·.id) fun _ _ _ => rfl]
    · have hcounts := accounted_meter s.config s.pending hid m
      have hpos := zero_lt_u64
      rw [configMeter_congr hmeters] at hzero
      rw [hzero] at hcounts
      unfold Counts at hcounts
      omega

omit [Double τ] in
theorem Service.Accounted.last (h : s.Accounted P c) (hc : s.accounting = .closing)
    (hi : s.canFlush = true) {e : Entropy} (ho : Orderly P s (.lastFlush e)) :
    Service.Accounted P c { s.flush P e with
      network := { s.network with receiving := false }, accounting := .finished } := by
  have hflushed := h.sound.flush hi e
  have hover : s.accounting.Over := by rw [hc]; trivial
  obtain ⟨hpending, hcounted⟩ := Service.flush_counted ho
  exact ⟨hflushed.closed (Service.canFlush_cases hi).1, fun _ => h.drained hover,
    fun _ userId hid m => hflushed.received hpending hid m, fun _ => hcounted⟩

omit [Double τ] in
/-- A save of a request counts what the memory has. -/
theorem Service.Accounted.restored (h : s.Accounted P c) (hf : s.accounting = .finished)
    {disk : Disk} {k stored : ServerConfig} {e e' : Entropy} (hr : Replaces P s.config stored)
    (hsave : save P s.disk k e = (disk, .ok (stored, e')))
    (hn : List.Forall₂ SameButNames k.users stored.users) (ha : Apart k) :
    Counted disk.db s.config ∧ Counted disk.db stored := by
  have hstored : Counted disk.db stored := saved_counted (h.counted hf) hsave hn ha
    (ids_of_sameMeters hr.same) fun userId _ m hzero => by rwa [configMeter_congr hr.same] at hzero
  refine ⟨⟨hstored.initialized, fun userId hid m => ?_⟩, hstored⟩
  rw [← ids_of_sameMeters hr.same] at hid
  rw [hstored.meters userId hid m, configMeter_congr hr.same]

omit [Double τ] in
/-- Listeners, sessions or a `reconcile` have moved. -/
theorem Service.Accounted.moved (h : s.Accounted P c) {n : Network τ}
    (ht : Service.Sound P c { s with network := n })
    (hsent : s.accounting.Over → n.sent = s.network.sent) (htaken : n.taken = s.network.taken) :
    Service.Accounted P c { s with network := n } :=
  h.kept ht rfl hsent htaken (fun _ => sameMeters_refl _) h.counted

omit [Double τ] in
/-- A request goes on, and gives the configuration it has stored to the others at last. -/
theorem Service.Accounted.reconciled (h : s.Accounted P c) (ok : Bool) :
    (s.reconciled ok).Accounted P c := by
  have ht := h.sound.reconciled ok
  have ho := h.sound.offers
  unfold Service.reconciled at ht ⊢
  have hstored : ∀ {k : ServerConfig} (hr : Replaces P s.config k),
      Service.Accounted P c { s with config := k, handling := .idle } := fun hr =>
    h.kept (h.sound.stored hr) rfl (fun _ => rfl) rfl (fun _ => hr.same)
      fun hf => (h.counted hf).congr hr.same
  split at ht
  · split at ht
    · rename_i hok
      rw [if_pos hok]
      exact .running ht id
    · rename_i hok
      rw [if_neg hok]
      exact h.kept ht rfl (fun _ => rfl) rfl (fun _ => sameMeters_refl _) h.counted
  · rename_i k hk
    rw [hk] at ho
    split at ht
    · rename_i hok
      rw [if_pos hok]
      exact hstored ho
    · rename_i hok
      rw [if_neg hok]
      exact h.kept ht rfl (fun _ => rfl) rfl (fun _ => sameMeters_refl _) h.counted
  · rename_i k hk
    rw [hk] at ho
    exact hstored ho
  · exact h

/-- **Every orderly step** keeps the process accounted. -/
theorem Service.step_accounted {l : ServiceAct} (h : s.Accounted P c) (hst : s.step P l = some t)
    (ho : Orderly P s l) : t.Accounted P c := by
  have ht := Service.step_sound h.sound hst
  have hsame := sameMeters_refl s.config.users
  cases Service.step_steps hst with
  | peers hact hn =>
    exact h.moved ht (fun hover => Network.step_untold hact (ho hover) hn)
      (Network.step_channel (NetworkAct.sends_of_peers hact) hn).2.1
  | receive hw hq => exact .running ht (show ¬ s.accounting.Over by rw [hw]; exact id)
  | tick hw => exact .running ht id
  | lastDrain hw =>
    exact ⟨ht, fun _ => (h.sound.network.balanced []).taken (h.sound.open Accounting.noConfusion hw),
      Accounting.noConfusion, Accounting.noConfusion⟩
  | flush hf hi => exact .running ht id
  | failedFlush hf => exact .running ht id
  | lastFlush hc hi => exact h.last hc hi ho
  | failedLastFlush hc hi => exact ho.elim
  | refused hu => exact h.kept ht rfl (fun _ => rfl) rfl (fun _ => hsame) fun hf => (h.counted hf).unsaved hu
  | stored hi hn hsave hcall =>
    obtain ⟨k, listeners, reconciling, rfl⟩ := Network.reconcile_same hcall
    have ha := normalizeUserTunnels_ok hn
    have hst : StoredCandidate P (⟨s.disk, s.config, none⟩ : Server τ) _ _ _ _ _ _ := ⟨ha, _, hsave⟩
    obtain ⟨pre, post, hat⟩ := exists_at hi
    have hv := h.sound.conserves.valid
    exact h.kept ht rfl (fun _ => rfl) rfl (fun _ => hsame) fun hf =>
      (h.restored hf (hst.replaces hv hi) hsave (candidate_sameNames hv hat ha hsave)
        (ho hf _ _ _ hi hn)).1
  | reconciling hact hn =>
    obtain ⟨k, listeners, reconciling, rfl⟩ := Network.reconcile_same hn
    exact h.moved ht (fun _ => rfl) rfl
  | reconciled hact hn =>
    have hmoved := h.sound.movedBy hn fun u _ => Network.reconcile_keeps hact u.id
    obtain ⟨k, listeners, reconciling, rfl⟩ := Network.reconcile_same hn
    exact (h.moved hmoved (fun _ => rfl) rfl).reconciled _
  | restored hf hsave hcall =>
    obtain ⟨k, listeners, reconciling, rfl⟩ := Network.reconcile_same hcall
    obtain ⟨hr, hnames⟩ := original_replaces h.sound.conserves.valid hsave
    exact h.kept ht rfl (fun _ => rfl) rfl (fun _ => hsame) fun hf =>
      (h.restored hf hr hsave hnames (ho hf)).1
  | stuck hu => exact h.kept ht rfl (fun _ => rfl) rfl (fun _ => hsame) fun hf => (h.counted hf).unsaved hu
  | drop => exact h.kept ht rfl (fun _ => rfl) rfl (fun _ => hsame) h.counted
  | write => exact h.kept ht rfl (fun _ => rfl) rfl (fun _ => hsame) ho
  | signal => exact h.kept ht rfl (fun _ => rfl) rfl (fun _ => hsame) h.counted
  | stop hn =>
    cases hn
    exact h.kept ht rfl (fun _ => rfl) rfl (fun _ => hsame) h.counted
  | joined => exact h.kept ht rfl (fun _ => rfl) rfl (fun _ => hsame) h.counted
  | ret hr => exact h.kept ht rfl (fun _ => rfl) rfl (fun _ => hsame) h.counted

/-- `serve` returns after the accounting task. -/
theorem Service.step_returned {l : ServiceAct} (hst : s.step P l = some t) (hr : t.stage = .returned) :
    t.accounting = .finished := by
  have hne : s.stage ≠ .returned := by
    intro he
    unfold Service.step at hst
    rw [if_pos (.inr he)] at hst
    cases hst
  cases Service.step_steps hst with
  | ret hf => exact hf
  | signal => cases hr
  | stop hn => cases hr
  | joined => cases hr
  | reconciled hact hn =>
    unfold Service.reconciled at hr
    split at hr
    · split at hr
      · exact absurd hr hne
      · cases hr
    · split at hr <;> exact absurd hr hne
    · exact absurd hr hne
    · exact absurd hr hne
  | _ => exact absurd hr hne

theorem orderly_inductive : ((service P c : LTS (Service τ) ServiceAct).restrict (Orderly P)).Inductive
    fun s => s.Accounted P c ∧ (s.stage = .returned → s.accounting = .finished) where
  init s h := by
    have hs := service_inductive.init s h
    refine ⟨.running hs ?_, fun hr => ?_⟩
    · rw [h.accounting]
      exact id
    · rw [h.stage] at hr
      cases hr
  step _ _ _ h hst :=
    ⟨Service.step_accounted h.1 hst.1 hst.2, Service.step_returned hst.1⟩

/-- **A stop loses no traffic** in a run of orderly steps: when `serve` returns, the database
has for every user what it had, and every byte of which an event was sent. -/
theorem stop_counts (h : ((service P c).restrict (Orderly P)).Reachable s) (hr : s.stage = .returned) :
    ∀ userId ∈ c.users.map (·.id), ∀ m,
      dbMeter s.disk.db userId m = configMeter c userId m + meterOf s.network.sent userId m := by
  obtain ⟨hs, hreturned⟩ := orderly_inductive.reachable s h
  have hf := hreturned hr
  intro userId hid m
  have hmem : userId ∈ s.config.users.map (·.id) := by
    rw [show s.config.users.map (·.id) = c.users.map (·.id) from hs.sound.conserves.ids]
    exact hid
  rw [(hs.counted hf).meters userId hmem m, hs.received hf userId hid m,
    hs.drained (by rw [hf]; trivial)]

end

/-! ## An orderly stop, and two that lose traffic -/

/-- A chunk of 80 bytes is delivered, and the listener and the accounting task stop. -/
def delivered : List ServiceAct := bringUp oneTunnel ++ [.peers (.accept 0)] ++
  upload 0 [.read 80, .reserve 0, .write 80]

def returns : List ServiceAct := [.stop, .peers (.leave 0), .joined, .ret]

/-- A step that is orderly whatever the directory holds. -/
def plainly (s : Service Rat) : ServiceAct → Bool
  | .peers act => !(s.accounting = .closing || s.accounting = .finished) || !act.tells
  | .lastFlush _ | .failedLastFlush | .write _ | .request _ _ _ | .restore _ => false
  | _ => true

theorem orderly_of_plainly {s : Service Rat} {l : ServiceAct} (h : plainly s l = true) :
    Orderly .plain s l := by
  cases l with
  | peers act =>
    intro hover
    unfold plainly at h
    cases hacc : s.accounting <;> rw [hacc] at h hover <;> first | exact hover.elim | simpa using h
  | request i submitted env => cases h
  | lastFlush e => cases h
  | failedLastFlush => cases h
  | write disk => cases h
  | restore e => cases h
  | _ => trivial

/-- The event reaches the accounting task before its last drain. -/
def drainedInTime : List ServiceAct :=
  delivered ++ upload 0 [.send] ++ [.peers (.session 0 .stop), .receive, .signal, .lastDrain]

theorem drainedInTime_counts : ∃ s : Service Rat, s.stage = .returned ∧
    meterOf s.network.sent ['a'] .used = 80 ∧
    dbMeter s.disk.db ['a'] .used = configMeter oneTunnel ['a'] .used + meterOf s.network.sent ['a'] .used := by
  have hexec : ((LTS.exec (fun s l => if plainly s l then Service.step Primitives.plain s l else none)
      (served oneTunnel) drainedInTime).bind fun s =>
        (Service.step Primitives.plain s (.lastFlush Entropy.constant)).bind fun r =>
          (LTS.exec (fun s l => if plainly s l then Service.step Primitives.plain s l else none)
            r returns).map fun t => (
              decide (s.disk.db = Db.ofConfig oneTunnel ∧ s.disk.backups.length = 0 ∧
                s.config = oneTunnel ∧ s.pending = addEvent ∅ (event .inbound 80)),
              decide (t.stage = .returned ∧ meterOf t.network.sent ['a'] .used = 80))) =
      some (true, true) := by decide +kernel
  obtain ⟨s, hs, hexec⟩ := Option.bind_eq_some_iff.1 hexec
  obtain ⟨r, hr, hexec⟩ := Option.bind_eq_some_iff.1 hexec
  obtain ⟨t, ht, he⟩ := Option.map_eq_some_iff.1 hexec
  simp only [Prod.mk.injEq, decide_eq_true_eq] at he
  obtain ⟨⟨hdb, hbackups, hconfig, hpending⟩, hstage, hsent⟩ := he
  have horderly : Orderly .plain s (.lastFlush Entropy.constant) := by
    have hids : ∀ u ∈ (accounted oneTunnel (addEvent ∅ (event .inbound 80))).users, u.id = ['a'] := by
      decide +kernel
    have hfits : (writeSnapshot Db.empty (accounted oneTunnel (addEvent ∅ (event .inbound 80)))).isOk =
        true := by decide +kernel
    simp only [Orderly]
    rw [if_neg (by rw [hpending]; decide +kernel)]
    refine ⟨?_, ?_, ?_⟩
    · rw [hconfig]
      exact mirrored_ofConfig hdb (List.eq_nil_of_length_eq_zero hbackups) (by decide +kernel)
        (by decide +kernel) (by decide +kernel) (by decide +kernel) (by decide +kernel)
    · rw [hconfig, hpending]
      exact (writeSnapshot_inv (Db.ofConfig_written hfits)).1
    · rw [hconfig, hpending]
      intro u hu v hv _ _ _
      rw [hids u hu, hids v hv]
  have hplain : ∀ {s t : Service Rat} {ls : List ServiceAct},
      LTS.exec (fun s l => if plainly s l then Service.step Primitives.plain s l else none) s ls = some t →
        ((service .plain oneTunnel).restrict (Orderly .plain)).Run s ls t := by
    intro s t ls h
    have hrun : ((service .plain oneTunnel).restrict fun (s : Service Rat) l => plainly s l = true).Run s ls t :=
      LTS.restrict_run_of_exec h
    exact hrun.mono fun s l t _ hst => ⟨hst.1, orderly_of_plainly hst.2⟩
  have hrun := (hplain hs).append (.cons ⟨hr, horderly⟩ (hplain ht))
  exact ⟨t, hstage, hsent, stop_counts ⟨_, _, oneTunnel_served, hrun⟩ hstage ['a'] (by decide) .used⟩

/-- The session sends its event after the last drain. -/
def toldLate : List ServiceAct := delivered ++ [.signal, .lastDrain] ++ upload 0 [.send] ++
  [.lastFlush Entropy.constant] ++ returns

/-- Another process saves a new speed limit before the last flush. -/
def faster : ServerConfig :=
  { oneTunnel with users := oneTunnel.users.map fun u => { u with speedLimitMbps := 5 } }

def savedMeanwhile : List ServiceAct := delivered ++ upload 0 [.send] ++
  [.receive, .write (save .plain (Disk.ofConfig oneTunnel) faster Entropy.constant).1, .signal,
    .lastDrain, .lastFlush Entropy.constant] ++ returns

/-- **Both stops lose traffic**: an event is sent, and the database does not have its bytes
when `serve` returns. -/
theorem stop_loses : (save .plain (Disk.ofConfig oneTunnel) faster Entropy.constant).2.isOk = true ∧
    ∀ run ∈ [toldLate, savedMeanwhile], ∃ s : Service Rat,
    (service .plain oneTunnel).Run (served oneTunnel) run s ∧ s.stage = .returned ∧
    meterOf s.network.sent ['a'] .used = 80 ∧ dbMeter s.disk.db ['a'] .used = 0 := by
  have hexec : ∀ run ∈ [toldLate, savedMeanwhile],
      (LTS.exec (Service.step Primitives.plain) (served oneTunnel) run).map (fun s =>
        (s.stage, meterOf s.network.sent ['a'] .used, dbMeter s.disk.db ['a'] .used)) =
        some (.returned, 80, 0) := by decide +kernel
  refine ⟨by decide +kernel, fun run hrun => ?_⟩
  obtain ⟨s, hs, he⟩ := Option.map_eq_some_iff.1 (hexec run hrun)
  simp only [Prod.mk.injEq] at he
  exact ⟨s, LTS.run_of_exec hs, he⟩

end OrangeFrp.App
