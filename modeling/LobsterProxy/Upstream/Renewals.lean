import LobsterProxy.Upstream.Operations
import LobsterProxy.Upstream.Persistence

/-! Runs in which accounts are refreshed. A refresh puts the data of the rewritten file in the
place of the old one, also the id by which the pool keeps its records. -/

namespace Lobster.Upstream
open Pool

def Credential.renew (data : CredentialData) (credential : Credential) : Credential :=
  { credential with
    uid := data.uid
    accessToken := data.accessToken
    refreshToken := data.refreshToken }

/-- The account of the file has new data. The records of the pool stay as they are. -/
def Pool.renew (path : String) (data : CredentialData) (pool : Pool) : Pool :=
  { pool with entries := pool.entries.map fun c => if c.path = path then c.renew data else c }

/-- An operation of the pool, or a refresh that succeeds. `refresh_due` and the requests wait for
the upstream with one account at a time, and other operations come in between; when a refresh
fails, what they do is an operation. -/
inductive PoolEvent where
  | operation (moment : Moment)
  | renewal (now : Nat) (path : String) (data : CredentialData)

namespace PoolEvent

def now : PoolEvent → Nat
  | operation moment => moment.now
  | renewal now _ _ => now

def perform : PoolEvent → Pool → Pool
  | operation moment, pool => moment.perform pool
  | renewal _ path data, pool => pool.renew path data

def Finds (path : String) : PoolEvent → Prop
  | operation moment => moment.present path = true
  | renewal _ _ _ => True

/-- A refresh of the file leaves its account with the id. -/
def Keeps (path uid : String) : PoolEvent → Prop
  | operation _ => True
  | renewal _ renewed data => renewed = path → data.uid = uid

end PoolEvent

def Pool.live (limits : LimitConfig) (events : List PoolEvent) : Pool :=
  Runs.run PoolEvent.perform events (.new limits)

section Entries
variable {present : String → Bool} {read : String → Option Credential} {pool : Pool}
  {entries : List Credential} {credential : Credential} {path uid : String} {data : CredentialData}

def OnePerFile (entries : List Credential) : Prop := (entries.map Credential.path).Nodup

theorem OnePerFile.eq_of_path {other : Credential} (h : OnePerFile entries)
    (hmem : credential ∈ entries) (hother : other ∈ entries)
    (hpath : credential.path = other.path) : credential = other :=
  List.inj_on_of_nodup_map h hmem hother hpath

theorem OnePerFile.loadFile (h : OnePerFile entries) (path : String) :
    OnePerFile (Pool.loadFile present read path entries) := by
  unfold Pool.loadFile
  split_ifs with hskipped
  · exact h
  · cases read path with
    | none => exact h
    | some loaded =>
      dsimp only
      split_ifs
      · exact h
      · have hnew : path ∉ entries.map Credential.path := fun hmem => hskipped <| by
          obtain ⟨c, hc, heq⟩ := List.mem_map.mp hmem
          rw [List.any_eq_true.mpr ⟨c, hc, decide_eq_true heq⟩, Bool.or_true]
        unfold OnePerFile
        rw [List.map_append, List.map_singleton, List.nodup_append]
        refine ⟨h, List.nodup_singleton _, ?_⟩
        intro a ha b hb hab
        have hpath : a = path := hab.trans (List.mem_singleton.mp hb)
        exact hnew (hpath ▸ ha)

theorem OnePerFile.remaining (h : OnePerFile entries) (operation : Operation) :
    OnePerFile (operation.remaining present read entries) := by
  have hfilter : OnePerFile (entries.filter fun c => present c.path) :=
    h.sublist (List.filter_sublist.map _)
  cases operation with
  | pick sessionFp model => exact hfilter
  | prune => exact hfilter
  | loadFiles paths =>
    show OnePerFile (paths.foldl _ entries)
    clear hfilter
    induction paths generalizing entries with
    | nil => exact h
    | cons path paths ih => exact ih (h.loadFile path)
  | _ => exact h

theorem path_renew (credential : Credential) :
    (if credential.path = path then credential.renew data else credential).path =
      credential.path := by
  split_ifs <;> rfl

theorem OnePerFile.perform (event : PoolEvent) (h : OnePerFile pool.entries) :
    OnePerFile (event.perform pool).entries := by
  cases event with
  | operation moment =>
    show OnePerFile (moment.perform pool).entries
    rw [entries_perform]
    exact h.remaining moment.operation
  | renewal now path data =>
    show ((pool.entries.map _).map Credential.path).Nodup
    have hpaths : (fun c : Credential => (if c.path = path then c.renew data else c).path) =
        Credential.path :=
      funext fun c => path_renew c
    rw [List.map_map, Function.comp_def, hpaths]
    exact h

def Pool.HasAccount (path uid : String) (pool : Pool) : Prop :=
  ∃ c ∈ pool.entries, c.path = path ∧ c.uid = uid

theorem Pool.HasAccount.perform {event : PoolEvent} (h : pool.HasAccount path uid)
    (hfinds : event.Finds path) (hkeeps : event.Keeps path uid) :
    (event.perform pool).HasAccount path uid := by
  obtain ⟨c, hmem, rfl, rfl⟩ := h
  cases event with
  | operation moment => exact ⟨c, mem_entries_perform moment hmem hfinds, rfl, rfl⟩
  | renewal now renewed data =>
    refine ⟨_, List.mem_map_of_mem hmem, path_renew c, ?_⟩
    split_ifs with hpath
    · exact hkeeps hpath.symm
    · rfl

end Entries

theorem limits_event (event : PoolEvent) (pool : Pool) :
    (event.perform pool).limits = pool.limits := by
  cases event with
  | operation moment => exact limits_perform moment pool
  | renewal now path data => rfl

theorem limits_live (limits : LimitConfig) (events : List PoolEvent) :
    (Pool.live limits events).limits = limits :=
  Runs.run_keeps (fun pool => pool.limits = limits)
    (fun event pool h => (limits_event event pool).trans h) rfl

theorem onePerFile_live (limits : LimitConfig) (events : List PoolEvent) :
    OnePerFile (Pool.live limits events).entries :=
  Runs.run_keeps (fun pool : Pool => OnePerFile pool.entries) (fun event _ h => h.perform event)
    List.nodup_nil

section BothIds

/-- The tokens are at the top level, and there is an account section with another id. -/
def bothIds : CredentialData where
  raw := .obj [("accessToken", .str "tok-1"), ("refreshToken", .str "rt-1"), ("uid", .str "1001"),
    ("account", .obj [("uid", .str "1002")])]
  uid := "1001"
  userId := ""
  nickname := ""
  uuid := ""
  firstKeyfrom := ""
  latestKeyfrom := ""
  accessToken := "tok-1"
  refreshToken := "rt-1"
  expiresAtSecs := 0
  lastRefreshSecs := 0

def bothIdsText : String :=
  "\x7b\"accessToken\":\"tok-1\",\"refreshToken\":\"rt-1\",\"uid\":\"1001\"," ++
  "\"account\":\x7b\"uid\":\"1002\"\x7d\x7d"

def bothIdsRenewed : CredentialData := (applyRefresh (onTexts [(bothIdsText, bothIds.raw)])
  ⟨"tok-2", "rt-2", 1900000000⟩ 1800000000 (some (encoded bothIdsText)) (.ok ()) bothIds).data

def annRenewed : Credential := ⟨"1002", "ann-file", "/home/ann/credential.json", "tok-2", "rt-2"⟩

theorem renew_bothIds : ann.renew bothIdsRenewed = annRenewed := by
  have hread : (onTexts [(bothIdsText, bothIds.raw)]).fromSlice (encoded bothIdsText) =
      some bothIds.raw :=
    (fromSlice_encoded _ _).trans (by decide +kernel)
  unfold bothIdsRenewed applyRefresh currentRaw
  rw [Option.bind_some, hread]
  decide +kernel

example : parseCredential bothIds.raw = .ok bothIds := by decide +kernel

end BothIds

end Lobster.Upstream
