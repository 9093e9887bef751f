import OrangeFrp.Storage.Valid

/-!
# Normalizing twice

`normalize_loaded_config` runs on the whole configuration at every save, flush and
read. Its result is a fixed point unless some tunnel kept an id of which nothing
is left once it is cleaned: the name of that tunnel is drawn again by every pass.

* `normalize_noDash_iff`: such an id in the result was there before.
* `normalize_idempotent_iff`: when a second pass changes nothing, whatever it draws.
-/
namespace OrangeFrp.Storage

open OrangeFrp.Core

/-! ## The ids a pass leaves -/

/-- A tunnel whose id is blank, and so will be drawn, or has a cleaned form. -/
def Settled (t : Tunnel) : Prop := isBlank t.id = true ∨ ¬ DashOnly t.id

instance (t : Tunnel) : Decidable (Settled t) := by unfold Settled; infer_instance

theorem isAlphanum_of_hex {ch : Char} (h : isLowerHex ch = true) : ch.isAlphanum = true ∧ ch ≠ '-' := by
  rw [isLowerHex_iff] at h
  refine ⟨(isAlphanum_iff ch).2 (by omega), ?_⟩
  intro heq
  obtain rfl := heq
  revert h
  decide

/-- A drawn id has a cleaned form. -/
theorem newTunnelId_not_dash (d : Draws) : ¬ DashOnly (newTunnelId d).1 := by
  unfold DashOnly cleanedId
  rw [trimBy_eq_nil_iff]
  intro h
  cases hs : d.head.simple with
  | nil =>
    have hlen := d.head.length_eq
    simp [hs] at hlen
  | cons ch rest =>
    obtain ⟨halnum, hne⟩ := isAlphanum_of_hex (d.head.hex ch (by simp [hs]))
    have := h ch (List.mem_map.2 ⟨ch, by simp [newTunnelId, hs], by simp [halnum]⟩)
    exact hne (beq_iff_eq.1 this)

theorem normalizeItem_dash_iff (t : Tunnel) (d : Draws) :
    ¬ DashOnly (normalizeItem t d).1.id ↔ Settled t := by
  unfold Settled normalizeItem
  cases hb : isBlank t.id with
  | true => simp [newTunnelId_not_dash]
  | false => simp

theorem normalizeTunnelsFrom_dash_iff {ts items : List Tunnel} {names : List Str}
    {ports : List (Str × Port)} {d d' : Draws}
    (h : normalizeTunnelsFrom names ports ts d = .ok (items, d')) :
    (∀ t ∈ items, ¬ DashOnly t.id) ↔ ∀ t ∈ ts, Settled t := by
  induction ts generalizing names ports d items with
  | nil =>
    simp only [normalizeTunnelsFrom, Except.ok.injEq, Prod.mk.injEq] at h
    simp [← h.1]
  | cons t ts ih =>
    simp only [normalizeTunnelsFrom] at h
    split at h
    · cases h
    split at h
    · cases h
    split at h
    · cases h
    split at h
    · cases h
    rename_i hrest
    cases h
    rw [List.forall_mem_cons, List.forall_mem_cons, ih hrest, normalizeItem_dash_iff]

theorem renameTunnels_ids (ts : List Tunnel) (d : Draws) :
    (renameTunnels ts d).1.map (·.id) = ts.map (·.id) :=
  map_eq_of_sameButName (·.id) (fun _ _ => rfl) (renameTunnels_forall₂ ts d)

theorem forall_id_iff {p : Str → Prop} {ts us : List Tunnel} (h : us.map (·.id) = ts.map (·.id)) :
    (∀ t ∈ us, p t.id) ↔ ∀ t ∈ ts, p t.id := by
  have hmap : ∀ l : List Tunnel, (∀ t ∈ l, p t.id) ↔ ∀ id ∈ l.map (·.id), p id := fun l => by simp
  rw [hmap us, hmap ts, h]

section
variable {P : Primitives}

theorem checkUser_dash_iff {apiSalt : Str} {reserved : List Port} {seen : Seen} {u : ServerUser}
    {d : Draws} {r : Seen × ServerUser × Draws} (h : checkUser P apiSalt reserved seen u d = .ok r) :
    (∀ t ∈ r.2.1.tunnels, ¬ DashOnly t.id) ↔ ∀ t ∈ u.tunnels, Settled t := by
  unfold checkUser at h
  simp only [bailIf_bind_eq_ok] at h
  obtain ⟨-, -, -, -, h⟩ := h
  obtain ⟨_, -, h⟩ := bind_eq_ok.1 h
  simp only [bailIf_bind_eq_ok] at h
  obtain ⟨-, -, h⟩ := h
  obtain ⟨⟨ts, d₁⟩, hts, h⟩ := bind_eq_ok.1 h
  obtain ⟨⟨seen', ts', d₂⟩, hck, h⟩ := bind_eq_ok.1 h
  simp only [pure, Except.pure, Except.ok.injEq] at h
  subst h
  rw [mapError_eq_ok] at hts
  obtain ⟨-, he⟩ := checkTunnels_ok_iff.1 hck
  obtain ⟨-, he⟩ := Prod.ext_iff.1 he
  obtain rfl : ts' = (renameTunnels ts d₁).1 := (Prod.ext_iff.1 he).1
  exact (forall_id_iff (p := fun id => ¬ DashOnly id) (renameTunnels_ids ts d₁)).trans
    (normalizeTunnelsFrom_dash_iff hts)

theorem checkUsers_dash_iff {apiSalt : Str} {reserved : List Port} {seen : Seen}
    {us : List ServerUser} {d : Draws} {r : Seen × List ServerUser × Draws}
    (h : checkUsers P apiSalt reserved seen us d = .ok r) :
    (∀ t ∈ r.2.1.flatMap (·.tunnels), ¬ DashOnly t.id) ↔ ∀ t ∈ us.flatMap (·.tunnels), Settled t := by
  induction us generalizing seen d r with
  | nil =>
    simp only [checkUsers, Except.ok.injEq] at h
    subst h
    simp
  | cons u us ih =>
    simp only [checkUsers] at h
    obtain ⟨⟨seen₁, u', d₁⟩, hu, h⟩ := bind_eq_ok.1 h
    obtain ⟨⟨seen₂, us', d₂⟩, hus, h⟩ := bind_eq_ok.1 h
    simp only [pure, Except.pure, Except.ok.injEq] at h
    subst h
    simp only [List.flatMap_cons, List.mem_append, or_imp, forall_and]
    exact and_congr (checkUser_dash_iff hu) (ih hus)

variable {c₀ c : ServerConfig} {d d' : Draws}

/-- **The ids without a cleaned form** in a result are those that were submitted. -/
theorem normalize_noDash_iff (h : normalizeLoadedConfig P c₀ d = .ok (c, d')) :
    NoDash c ↔ ∀ t ∈ c₀.tunnels, Settled t := by
  obtain ⟨-, ⟨seen, us, d₁⟩, hk, -, he⟩ := (normalize_ok_iff P).1 h
  cases he
  rw [ServerConfig.tunnels, ← checkUsers_dash_iff hk]
  exact forall_congr' fun t => imp_congr_left ((sortUsers_perm us).flatMap_right _).mem_iff

/-! ## A second pass -/

/-- One value is drawn over and over. -/
def always (value : Uuid) : Draws := fun _ => value

/-- Every name without a cleaned id is made of the value that is drawn. -/
theorem renameTunnels_always (value : Uuid) (ts : List Tunnel) :
    (renameTunnels ts (always value)).2 = always value ∧
      ∀ t ∈ (renameTunnels ts (always value)).1, DashOnly t.id →
        t.proxyName = fgPrefix ++ value.simple.take 12 := by
  induction ts with
  | nil => simp [renameTunnels]
  | cons t ts ih =>
    have hdraws : (renameTunnel t (always value)).2 = always value := by
      unfold renameTunnel proxyNameFor
      split <;> rfl
    simp only [renameTunnels, hdraws, List.forall_mem_cons]
    refine ⟨ih.1, fun hd => ?_, ih.2⟩
    have hid : DashOnly t.id := hd
    exact congrArg Prod.fst (proxyNameFor_of_dash hid (always value))

theorem renameUsers_always (value : Uuid) (us : List ServerUser) :
    (renameUsers us (always value)).2 = always value ∧
      ∀ t ∈ (renameUsers us (always value)).1.flatMap (·.tunnels), DashOnly t.id →
        t.proxyName = fgPrefix ++ value.simple.take 12 := by
  induction us with
  | nil => simp [renameUsers]
  | cons u us ih =>
    obtain ⟨hdraws, hnames⟩ := renameTunnels_always value u.tunnels
    have hd : (renameUser u (always value)).2 = always value := hdraws
    simp only [renameUsers, hd, List.flatMap_cons, List.mem_append]
    exact ⟨ih.1, fun t ht => ht.elim (hnames t) (ih.2 t)⟩

/-- A fixed point of every pass has no name that is drawn. -/
theorem noDash_of_fixed (hv : Valid P c)
    (h : ∀ d₁, ∃ d₂, normalizeLoadedConfig P c d₁ = .ok (c, d₂)) : NoDash c := by
  intro t ht hdash
  obtain ⟨value, hne⟩ := exists_other_name t.proxyName
  obtain ⟨d₂, hn⟩ := h (always value)
  obtain ⟨-, -, he⟩ := (normalize_clean_iff P hv.settings hv.users _).1 hn
  have husers : c.users = sortUsers (renameUsers c.users (always value)).1 :=
    congrArg (·.users) (Prod.ext_iff.1 he).1
  refine hne ((renameUsers_always value c.users).2 t ?_ hdash)
  rw [ServerConfig.tunnels, husers] at ht
  exact ((sortUsers_perm _).flatMap_right _).mem_iff.1 ht

/-- **When a pass is idempotent**: a second pass, whatever it draws, returns the result of
the first exactly when every submitted id was blank or has a cleaned form. Then the
name of a tunnel is the one that any later pass gives its id. -/
theorem normalize_idempotent_iff (h : normalizeLoadedConfig P c₀ d = .ok (c, d')) :
    ((∀ d₁, ∃ d₂, normalizeLoadedConfig P c d₁ = .ok (c, d₂)) ↔ ∀ t ∈ c₀.tunnels, Settled t) ∧
      ((∀ t ∈ c₀.tunnels, Settled t) → ∀ t ∈ c.tunnels, ∀ c₁ d₁ c₂ d₂,
        normalizeLoadedConfig P c₁ d₁ = .ok (c₂, d₂) →
          ∀ t₂ ∈ c₂.tunnels, t₂.id = t.id → t₂.proxyName = t.proxyName) := by
  have hv := (normalize_valid P h).1
  rw [← normalize_noDash_iff h]
  refine ⟨⟨noDash_of_fixed hv, fun hc d₁ => ⟨d₁, normalize_self P hv hc d₁⟩⟩, ?_⟩
  intro hc t ht c₁ d₁ c₂ d₂ hn t₂ ht₂ hid
  have hname := (normalize_valid P hn).1.names t₂ ht₂
  rw [hid] at hname
  rw [hname.eq_of_clean (hc t ht), (hv.names t ht).eq_of_clean (hc t ht)]

end

/-! ## An id that is a dash -/

/-- A user whose only tunnel has the id, under a name drawn from the constant value. -/
def namedTunnel (id name : Str) : Tunnel :=
  { sampleTunnel ['x'] 5 20000 with id := id, proxyName := name }

def named (id name : Str) : ServerConfig := sampleConfig [sampleUser 'a' [namedTunnel id name]]

theorem dotted_idempotent : (∀ d₁, ∃ d₂, normalizeLoadedConfig .plain
      (named ['a', '.', 'b'] (fgPrefix ++ ['a', '-', 'b'])) d₁ =
        .ok (named ['a', '.', 'b'] (fgPrefix ++ ['a', '-', 'b']), d₂)) ∧
    Settled (namedTunnel ['a', '.', 'b'] []) := by
  obtain ⟨d, hn⟩ := exists_of_fst (show (normalizeLoadedConfig .plain (named ['a', '.', 'b'] [])
    Draws.constant).toOption.map Prod.fst = some (named ['a', '.', 'b'] (fgPrefix ++ ['a', '-', 'b'])) by
      decide +kernel)
  exact ⟨(normalize_idempotent_iff hn).1.2 (by decide +kernel), by decide +kernel⟩

/-- The name of the id `-` is drawn anew by the second pass. -/
theorem dash_renamed : ∃ d', normalizeLoadedConfig .plain (named ['-'] []) Draws.constant =
      .ok (named ['-'] (fgPrefix ++ List.replicate 12 'e'), d') ∧
    ¬ ∀ d₁, ∃ d₂, normalizeLoadedConfig .plain (named ['-'] (fgPrefix ++ List.replicate 12 'e')) d₁ =
      .ok (named ['-'] (fgPrefix ++ List.replicate 12 'e'), d₂) := by
  obtain ⟨d, hn⟩ := exists_of_fst (show (normalizeLoadedConfig .plain (named ['-'] [])
    Draws.constant).toOption.map Prod.fst = some (named ['-'] (fgPrefix ++ List.replicate 12 'e')) by
      decide +kernel)
  refine ⟨d, hn, fun h => ?_⟩
  exact noDash_of_fixed (normalize_valid .plain hn).1 h
    (namedTunnel ['-'] (fgPrefix ++ List.replicate 12 'e')) List.mem_cons_self (by decide +kernel)

end OrangeFrp.Storage
