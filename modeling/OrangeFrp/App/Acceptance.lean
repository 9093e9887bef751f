import OrangeFrp.App.Candidate
import OrangeFrp.Storage.Idempotence

/-!
# The two checks of a tunnel list

A submitted list is checked by `normalize_user_tunnels` against the configuration
in memory, and once more, as part of the candidate, by `normalize_loaded_config`
when it is stored. The first check compares ids only within the list, the second
over all users; as equal ids mostly give equal names, which both compare, they
differ on ids whose names are drawn.

* `accepted_normalizes_iff`: what the first check accepts passes the second exactly
  when no id is another user's and the names drawn again are fresh.
-/
namespace OrangeFrp.App

open OrangeFrp.Core OrangeFrp.Core.Table OrangeFrp.Storage

section
variable {P : Primitives} {c : ServerConfig} {i : Nat} {a : ServerUser}
  {pre post : List ServerUser} {ts : List Tunnel}

theorem candidate_normalizes_iff (hv : Valid P c) (h : At c i pre a post)
    (ha : AcceptedFor c i a ts) (now : Int) (d : Draws) :
    (∃ r, normalizeLoadedConfig P (candidate c i a ts now) d = .ok r) ↔
      NoForeignId c i ts ∧ Fresh d (dashCount (candidate c i a ts now).tunnels)
        (cleanNames (candidate c i a ts now).tunnels) := by
  have hadm := @admitsUsers_rename_iff c.reserved (candidate c i a ts now).users d
    (candidate_nameFor now hv h ha) (candidate_names now hv h ha)
  rw [candidate_admits now hv h ha] at hadm
  simp only [normalize_clean_iff P (candidate_settings now hv) (candidate_userOk now hv h ha)]
  refine ⟨?_, ?_⟩
  · intro hx
    obtain ⟨r, h₁, -⟩ := hx
    exact hadm.1 h₁
  · intro hc
    exact ⟨_, hadm.2 hc, portsApart_rename d (candidate_portsApart now hv h ha), rfl⟩

/-- The port of a new tunnel is neither a server port nor the port of any tunnel. -/
theorem new_backend_apart (hv : Valid P c) (h : At c i pre a post) (ha : AcceptedFor c i a ts)
    (now : Int) {t : Tunnel} (ht : t ∈ ts) :
    t.backendPort ∉ c.reserved ∧ ∀ o ∈ (candidate c i a ts now).tunnels,
      o.remotePort ≠ t.backendPort ∧ (o ≠ t → o.backendPort ≠ t.backendPort) := by
  have htc : t ∈ (candidate c i a ts now).tunnels := (mem_candidate_tunnels now h).2 (.inl ht)
  obtain ⟨-, -, hres, -, -⟩ := accepted_backend hv h ha
  refine ⟨(hres t ht).2, fun o ho => ⟨candidate_portsApart now hv h ha o ho t htc, fun hne e => hne ?_⟩⟩
  exact eq_of_tunnel_column (candidate_backendPorts now hv h ha) ho htc e

/-- A tunnel that keeps its id keeps its backend port. -/
theorem kept_backend (hv : Valid P c) (h : At c i pre a post) (ha : AcceptedFor c i a ts)
    {t old : Tunnel} (ht : t ∈ ts) (hold : old ∈ a.tunnels) (hid : old.id = t.id) :
    t.backendPort = old.backendPort := by
  cases ha.backend t ht with
  | kept old' hm hid' hp =>
    have := eq_of_tunnel_column (newIn_empty.1 hv.distinct.tunnels.ids) (mem_tunnels h.mem hm)
      (mem_tunnels h.mem hold) (hid'.trans hid.symm)
    rw [← hp, this]
  | fresh hn _ _ => exact absurd hid (hn old hold)

end

/-- **API and store.** An accepted list passes the check of the store exactly when none
of its ids is that of another user's tunnel and the names drawn for ids without a cleaned
form differ from each other and from the names that are not drawn. In any case new backend
ports are apart from all other ports, and an old id keeps its backend port. -/
theorem accepted_normalizes_iff {P : Primitives} {c₀ c : ServerConfig} {d₀ d₁ d d' : Draws} {i : Nat}
    {a : ServerUser} {tunnels ts : List Tunnel} (h₀ : normalizeLoadedConfig P c₀ d₀ = .ok (c, d₁))
    (hi : c.users[i]? = some a) (hn : normalizeUserTunnels c i a tunnels d = .ok (ts, d'))
    (now : Int) :
    (∀ d₂, (∃ r, normalizeLoadedConfig P (candidate c i a ts now) d₂ = .ok r) ↔
      NoForeignId c i ts ∧ Fresh d₂ (dashCount (candidate c i a ts now).tunnels)
        (cleanNames (candidate c i a ts now).tunnels)) ∧
    (∀ t ∈ ts, IsNew a.tunnels t → t.backendPort ∉ c.reserved ∧
      ∀ o ∈ (candidate c i a ts now).tunnels,
        o.remotePort ≠ t.backendPort ∧ (o ≠ t → o.backendPort ≠ t.backendPort)) ∧
    ∀ t ∈ ts, ∀ old ∈ a.tunnels, old.id = t.id → t.backendPort = old.backendPort := by
  have hv := (normalize_valid P h₀).1
  obtain ⟨pre, post, hat⟩ := exists_at hi
  have ha := normalizeUserTunnels_ok hn
  exact ⟨candidate_normalizes_iff hv hat ha now, fun t ht _ => new_backend_apart hv hat ha now ht,
    fun t ht old hold hid => kept_backend hv hat ha ht hold hid⟩

/-! ## An id of another user -/

/-- A tunnel with the id `-`, under a name drawn from one digit. -/
def dashTunnel (remotePort backendPort : Port) (digit : Char) : Tunnel :=
  { sampleTunnel ['-'] remotePort backendPort with
    proxyName := fgPrefix ++ List.replicate 12 digit }

/-- The first user has such a tunnel, the second has none. -/
def dashOwned : ServerConfig :=
  sampleConfig [sampleUser 'a' [dashTunnel 5 20000 'f'], sampleUser 'b' []]

theorem dashOwned_normalized : ∃ d₁, normalizeLoadedConfig .plain dashOwned
    (always (.ofDigit 'f' rfl)) = .ok (dashOwned, d₁) :=
  exists_of_fst (by decide +kernel)

theorem own_id_normalizes : ∃ ts d', normalizeUserTunnels dashOwned 1 (sampleUser 'b' [])
      [sampleTunnel ['x'] 6 0] Draws.constant = .ok (ts, d') ∧
    (∃ r, normalizeLoadedConfig .plain (candidate dashOwned 1 (sampleUser 'b' []) ts 5)
      Draws.constant = .ok r) ∧
    NoForeignId dashOwned 1 ts := by
  obtain ⟨d₁, h₀⟩ := dashOwned_normalized
  obtain ⟨d', hn⟩ := exists_of_fst (show (normalizeUserTunnels dashOwned 1 (sampleUser 'b' [])
    [sampleTunnel ['x'] 6 0] Draws.constant).toOption.map Prod.fst = some [sampleTunnel ['x'] 6 20001] by
      decide +kernel)
  exact ⟨_, d', hn, ((accepted_normalizes_iff h₀ rfl hn 5).1 Draws.constant).2
    ⟨by decide +kernel, by decide +kernel⟩, by decide +kernel⟩

/-- The second user submits the id as well, and is given another name for it; no draw
makes the store take the list. -/
theorem foreign_id_refused : (∃ d₁, normalizeLoadedConfig .plain dashOwned
      (always (.ofDigit 'f' rfl)) = .ok (dashOwned, d₁)) ∧
    ∃ ts d', normalizeUserTunnels dashOwned 1 (sampleUser 'b' []) [sampleTunnel ['-'] 6 0]
        Draws.constant = .ok (ts, d') ∧
      ∀ d₂ r, normalizeLoadedConfig .plain (candidate dashOwned 1 (sampleUser 'b' []) ts 5) d₂ ≠ .ok r := by
  obtain ⟨d₁, h₀⟩ := dashOwned_normalized
  obtain ⟨d', hn⟩ := exists_of_fst (show (normalizeUserTunnels dashOwned 1 (sampleUser 'b' [])
    [sampleTunnel ['-'] 6 0] Draws.constant).toOption.map Prod.fst =
      some [dashTunnel 6 20001 'e'] by decide +kernel)
  refine ⟨⟨d₁, h₀⟩, _, d', hn, fun d₂ r hr => ?_⟩
  obtain ⟨pre, post, hat⟩ := exists_at (show dashOwned.users[1]? = some (sampleUser 'b' []) from rfl)
  have hforeign : NoForeignId dashOwned 1 [dashTunnel 6 20001 'e'] := ((candidate_normalizes_iff
    (normalize_valid .plain h₀).1 hat (normalizeUserTunnels_ok hn) 5 d₂).1 ⟨r, hr⟩).1
  exact absurd hforeign (by decide +kernel)

end OrangeFrp.App
