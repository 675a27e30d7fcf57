import Mathlib.Data.List.Nodup
import Mathlib.Data.List.Perm.Subperm
import NodeAgent.Offline
import NodeAgent.Panel.ServerClient
import NodeAgent.Proofs.Launch

/-!
Which endpoints of a server have a listener once its nodes have started. Listeners go by tag, and the
listener of an endpoint is replaced where another one of the same tag comes after it.
-/

namespace NodeAgent

theorem Table.size_eq_length_iff {κ ν : Type} [DecidableEq κ] {t : Table κ ν} {l : List κ}
    (h : ∀ k, k ∈ t.keys ↔ k ∈ l) : t.size = l.length ↔ l.Nodup := by
  have hsize : t.size = t.keys.length := (List.length_map ..).symm
  rw [hsize]
  constructor
  · intro hlength
    have hperm := (List.subperm_of_subset t.nodup fun k hk => (h k).1 hk).perm_of_length_le
      (Nat.le_of_eq hlength.symm)
    exact hperm.nodup_iff.1 t.nodup
  · intro hnodup
    exact ((List.perm_ext_iff_of_nodup t.nodup hnodup).2 h).length_eq

namespace Fleet

variable {π : Type} [Addressed π] {serverId : Int} {data : ServerData}
  {make : Nat → NodeInfo → Except Cause π} {fleet : Fleet π}

theorem ofServer_ok (h : ofServer serverId data make = .ok fleet) :
    fleet.nodes.map (·.session.info) = infos serverId data ∧
      ∀ node ∈ fleet.nodes, node.session.tag =
        nodeTag (Addressed.host node.client) node.session.info.kind node.session.info.id := by
  obtain ⟨nodes, hm, hfleet⟩ := exists_of_bind_eq_ok h
  cases hfleet
  refine ⟨?_, forall_of_mapM_ok (fun a node hnode => ?_) hm⟩
  · refine (map_eq_of_mapM_ok (fun a node hnode => ?_) hm).trans
      (List.zipIdx_map_fst 0 (infos serverId data))
    dsimp only at hnode
    split at hnode
    · cases hnode
      rfl
    · cases hnode
  · dsimp only at hnode
    split at hnode
    · cases hnode
      rfl
    · cases hnode

theorem mem_infos (serverId : Int) {e : Endpoint} (he : e ∈ data.endpoints.getD [])
    (enabled : e.enable = true) {kind : Kind} (hkind : Kind.ofText? e.kindName = some kind) :
    ∃ info ∈ infos serverId data, info.kind = kind ∧ info.endpoint = e := by
  have hinfo : ∃ info, NodeInfo.ofEndpoint serverId data e = .ok info ∧ info.kind = kind ∧
      info.endpoint = e := by
    rw [NodeInfo.ofEndpoint, hkind]
    exact ⟨_, rfl, rfl, rfl⟩
  obtain ⟨info, hof, hfields⟩ := hinfo
  refine ⟨info, List.mem_filterMap.2 ⟨e, List.mem_filter.2 ⟨he, enabled⟩, ?_⟩, hfields⟩
  rw [hof]
  rfl

theorem id_of_mem_infos {info : NodeInfo} (h : info ∈ infos serverId data) : info.id = serverId := by
  obtain ⟨e, -, hof⟩ := List.mem_filterMap.1 h
  unfold NodeInfo.ofEndpoint at hof
  split at hof
  · cases hof
  · cases hof
    rfl

theorem nodup_tags_iff (h : ofServer serverId data make = .ok fleet) {host : String}
    (one : ∀ node ∈ fleet.nodes, Addressed.host node.client = host) :
    (fleet.nodes.map (·.session.tag)).Nodup ↔ ((infos serverId data).map (·.kind)).Nodup := by
  obtain ⟨hinfos, htags⟩ := ofServer_ok h
  have htag : fleet.nodes.map (·.session.tag) =
      ((infos serverId data).map (·.kind)).map fun k => nodeTag host k serverId := by
    rw [← hinfos, List.map_map, List.map_map]
    refine List.map_congr_left fun node hnode => ?_
    have hid : node.session.info.id = serverId :=
      id_of_mem_infos (hinfos ▸ List.mem_map.2 ⟨node, hnode, rfl⟩)
    rw [htags node hnode, one node hnode, hid]
    rfl
  rw [htag]
  exact List.nodup_map_iff fun k k' => nodeTag_inj.1

end Fleet

namespace LocalEngine

def Runs (e : LocalEngine) (kind : Kind) (port : UInt16) : Prop :=
  ∃ tag l, e.listener? tag = some l ∧ l.kind = kind ∧ l.port = port

def RunsAll (e : LocalEngine) (data : ServerData) : Prop :=
  ∀ endpoint ∈ data.endpoints.getD [], endpoint.enable = true →
    ∀ kind, Kind.ofText? endpoint.kindName = some kind → e.Runs kind endpoint.port

theorem runs_iff (e : LocalEngine) (kind : Kind) (port : UInt16) :
    e.Runs kind port ↔ ∃ tag ∈ e.entries.keys,
      (e.listener? tag).any (fun l => l.kind = kind ∧ l.port = port) = true := by
  constructor
  · rintro ⟨tag, l, hl, hfields⟩
    have hmem := (e.listener?_isSome_iff tag).1 (Option.isSome_iff_exists.2 ⟨l, hl⟩)
    exact ⟨tag, hmem, (Option.any_eq_true ..).2 ⟨l, hl, decide_eq_true hfields⟩⟩
  · rintro ⟨tag, -, hany⟩
    obtain ⟨l, hl, hfields⟩ := (Option.any_eq_true ..).1 hany
    exact ⟨tag, l, hl, of_decide_eq_true hfields⟩

instance (e : LocalEngine) (kind : Kind) (port : UInt16) : Decidable (e.Runs kind port) :=
  decidable_of_iff _ (e.runs_iff kind port).symm

end LocalEngine

namespace Core.Houses

variable {c : Core LocalEngine} {crew : List (String × NodeInfo)}

theorem runs_of_nodup (h : c.Houses crew) (distinct : (crew.map Prod.fst).Nodup)
    {face : String × NodeInfo} (hface : face ∈ crew) :
    c.engine.Runs face.2.kind face.2.endpoint.port := by
  have hsome : (crew.find? (·.1 = face.1)).isSome := by
    rw [List.find?_isSome]
    exact ⟨face, hface, by simp⟩
  obtain ⟨latest, hlatest⟩ := Option.isSome_iff_exists.1 hsome
  have htag : latest.1 = face.1 := by simpa using List.find?_some hlatest
  obtain rfl := List.inj_on_of_nodup_map distinct (List.mem_of_find?_eq_some hlatest) hface htag
  have hlistener := h.listener latest.1
  rw [hlatest, Option.map_some, Option.map_eq_some_iff] at hlistener
  obtain ⟨l, hl, hfields⟩ := hlistener
  obtain ⟨hkind, hport⟩ := Prod.mk.inj hfields
  exact ⟨latest.1, l, hl, hkind, hport⟩

end Core.Houses

namespace Agenda

variable {χ π σ : Type} [Shell χ] [PanelApi π χ] [ServerApi σ χ]

theorem Fresh.startFleet_ok {s : Agenda χ LocalEngine π σ} {owner : Nat}
    {i : Instance LocalEngine π σ} (fresh : s.Fresh owner i)
    (started : (s.startFleet owner).2 = .ok ()) :
    ∃ i', (s.startFleet owner).1.state.instances[owner]? = some i' ∧
      i'.core.Houses (i.fleet.nodes.map fun n => n.post.face).reverse := by
  have hstart : s.startNodes owner [] (List.range i.fleet.nodes.length) =
      ((s.startFleet owner).1, .ok ()) := by
    rw [← fresh.startFleet_eq]
    exact Prod.ext rfl started
  obtain ⟨posts', hfaces, hall⟩ := fresh.underway.startNodes_ok
    (fun n hn => by rw [List.length_map]; exact List.mem_range.1 hn) hstart
  obtain ⟨i', hi', -, hhoused⟩ := hall.keeps.state
  have hcrew := crew_all (i.fleet.nodes.map Node.post)
  rw [List.length_map, List.map_map] at hcrew
  rw [List.append_nil, crew_congr hfaces, hcrew] at hhoused
  exact ⟨i', hi', hhoused⟩

variable [Addressed π] {s : Agenda χ LocalEngine π σ} {owner : Nat} {i : Instance LocalEngine π σ}
  {serverId : Int} {data : ServerData} {make : Nat → NodeInfo → Except Cause π}

/--
When all nodes have started, each tag has the listener of the last endpoint that has come with it. So
all endpoints run, each at a listener of its own, if and only if no tag has come twice; and where all
nodes ask one panel, no tag comes twice just if no kind does.
-/
theorem endpoints_run_iff (fresh : s.Fresh owner i)
    (built : Fleet.ofServer serverId data make = .ok i.fleet)
    (started : (s.startFleet owner).2 = .ok ()) :
    ∃ i', (s.startFleet owner).1.state.instances[owner]? = some i' ∧
      (∀ t, (i'.core.engine.listener? t).map (fun l => (l.kind, l.port)) =
        (i.fleet.nodes.reverse.find? (·.session.tag = t)).map fun n =>
          (n.session.info.kind, n.session.info.endpoint.port)) ∧
      (i'.core.engine.RunsAll data ∧ i'.core.engine.entries.size = i.fleet.nodes.length ↔
        (i.fleet.nodes.map (·.session.tag)).Nodup) ∧
      ∀ host, (∀ node ∈ i.fleet.nodes, Addressed.host node.client = host) →
        ((i.fleet.nodes.map (·.session.tag)).Nodup ↔
          ((Fleet.infos serverId data).map (·.kind)).Nodup) := by
  obtain ⟨i', hi', hhoused⟩ := fresh.startFleet_ok started
  obtain ⟨hinfos, -⟩ := Fleet.ofServer_ok built
  refine ⟨i', hi', fun t => ?_, ?_, fun host one => Fleet.nodup_tags_iff built one⟩
  · rw [hhoused.listener, ← List.map_reverse, List.find?_map, Option.map_map]
    rfl
  · have htags : (i.fleet.nodes.map fun n => n.post.face).reverse.map Prod.fst =
        (i.fleet.nodes.map (·.session.tag)).reverse := by
      rw [List.map_reverse, List.map_map]
      rfl
    have hsize : i'.core.engine.entries.size = i.fleet.nodes.length ↔
        (i.fleet.nodes.map (·.session.tag)).Nodup := by
      have h := Table.size_eq_length_iff hhoused.mem_keys_iff
      rwa [htags, List.length_reverse, List.length_map, List.nodup_reverse] at h
    -- one way by counting: as many tags as nodes are distinct tags
    refine ⟨fun hall => hsize.1 hall.2, fun hnodup => ⟨?_, hsize.2 hnodup⟩⟩
    intro endpoint hmem enabled kind hkind
    obtain ⟨info, hinfo, rfl, rfl⟩ := Fleet.mem_infos serverId hmem enabled hkind
    obtain ⟨node, hnode, rfl⟩ := List.mem_map.1 (hinfos ▸ hinfo)
    refine hhoused.runs_of_nodup ?_ (List.mem_reverse.2 (List.mem_map.2 ⟨node, hnode, rfl⟩))
    rwa [htags, List.nodup_reverse]

section TwoOfOneKind

def twoPorts : ServerData :=
  { endpoints := some
      [{ kindName := "vmess", port := 1, enable := true, transport := "tcp" },
        { kindName := "vmess", port := 2, enable := true, transport := "tcp" }] }

/-- The second listener replaces the first one, and no one says so. -/
theorem one_listener_for_two_ports :
    let fleet := Fleet.serving [⟨7, "alice", 0, 0⟩] twoPorts
    let s : Agenda Offline LocalEngine ScriptedPanel ServerClient :=
      ofFleet { outside := {} } fleet
    Fleet.ofServer 1 twoPorts (fun _ _ => .ok (.sending [⟨7, "alice", 0, 0⟩])) = .ok fleet ∧
      s.Fresh 0 { core := { engine := {} }, fleet } ∧ (s.startFleet 0).2 = .ok () ∧
      ¬∀ i ∈ (s.startFleet 0).1.state.instances[0]?, i.core.engine.RunsAll twoPorts ∧
        i.core.engine.entries.size = fleet.nodes.length := by
  intro fleet s
  refine ⟨rfl, fresh_ofFleet .., by decide +kernel, fun h => ?_⟩
  have hruns : ∀ i ∈ (s.startFleet 0).1.state.instances[0]?, i.core.engine.Runs .vmess 1 :=
    fun i hi => (h i hi).1 _ (List.mem_cons_self ..) rfl .vmess rfl
  exact absurd hruns (by decide +kernel)

def twoKinds : ServerData :=
  { endpoints := some
      [{ kindName := "vmess", port := 1, enable := true, transport := "tcp" },
        { kindName := "shadowsocks", port := 2, enable := true, cipher := "aes-128-gcm" }] }

theorem both_kinds_run :
    let s : Agenda Offline LocalEngine ScriptedPanel ServerClient :=
      ofFleet { outside := {} } (.serving [⟨7, "alice", 0, 0⟩] twoKinds)
    ∃ i, (s.startFleet 0).1.state.instances[0]? = some i ∧
      i.core.engine.RunsAll twoKinds ∧ i.core.engine.entries.size = 2 := by
  intro s
  have hbuilt : Fleet.ofServer 1 twoKinds (fun _ _ => .ok (.sending [⟨7, "alice", 0, 0⟩])) =
      .ok (Fleet.serving [⟨7, "alice", 0, 0⟩] twoKinds) := rfl
  obtain ⟨i, hi, -, hruns, hkinds⟩ := endpoints_run_iff (s := s) (fresh_ofFleet ..) hbuilt
    (by decide +kernel)
  exact ⟨i, hi, hruns.2 ((hkinds "http://p" (by decide +kernel)).2 (by decide +kernel))⟩

end TwoOfOneKind

end Agenda

end NodeAgent
