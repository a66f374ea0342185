import Nidra.Lib.PyUuid
import Nidra.Lib.TextKeys

/-
  This file defines the keys that the services share Redis
  by, as the texts they are composed to, and proves that
  different keys have different texts: host ids may hold the
  separator, UUIDs and numbers do not.

  Key definitions include:
    * `openKey`, `windowKey`, `episodeKeyText`
    * `RedisKey`, `RedisKey.text`

  Main declarations:
    * `RedisKey.text_injective`
-/

namespace Nidra

------------------------------------------------------------
-- Texts of Keys
------------------------------------------------------------

def openKey (tenantId : String) : String :=
  "feat:open:" ++ tenantId

def hostsKey
    (tenantId : String)
    (windowTs : ℤ) : String :=
  "feat:hosts:" ++ tenantId ++ ":" ++ toString windowTs

def windowKey
    (tenantId host : String)
    (windowTs : ℤ) : String :=
  "feat:win:" ++ tenantId ++ ":" ++ host ++ ":" ++
    toString windowTs

def graphKey
    (tenantId : String)
    (windowTs : ℤ) : String :=
  "feat:graph:" ++ tenantId ++ ":" ++ toString windowTs

def peersKey (tenantId host : String) : String :=
  "feat:peers:" ++ tenantId ++ ":" ++ host

def prevKey (tenantId host : String) : String :=
  "feat:prev:" ++ tenantId ++ ":" ++ host

def episodeKeyText (tenantId hostId : String) : String :=
  "ep:" ++ tenantId ++ ":" ++ hostId

def seqKeyText (tenantId hostId : String) : String :=
  "seq:" ++ tenantId ++ ":" ++ hostId

------------------------------------------------------------
-- Keys
------------------------------------------------------------

/- What a key is for. -/
inductive KeyKind where
  | opened
  | hosts
  | window
  | graph
  | peers
  | prev
  | episode
  | seq
deriving DecidableEq

/- How the keys of a kind begin. -/
def KeyKind.beginning : KeyKind → String
  | .opened => "feat:open:"
  | .hosts => "feat:hosts:"
  | .window => "feat:win:"
  | .graph => "feat:graph:"
  | .peers => "feat:peers:"
  | .prev => "feat:prev:"
  | .episode => "ep:"
  | .seq => "seq:"

/- A key of a tenant, whose id is a UUID. -/
inductive RedisKey where
  | opened (tenant : Uuid)
  | hosts (tenant : Uuid) (windowTs : ℤ)
  | window (tenant : Uuid) (host : String) (windowTs : ℤ)
  | graph (tenant : Uuid) (windowTs : ℤ)
  | peers (tenant : Uuid) (host : String)
  | prev (tenant : Uuid) (host : String)
  | episode (tenant : Uuid) (hostId : String)
  | seq (tenant : Uuid) (hostId : String)

namespace RedisKey

def text : RedisKey → String
  | .opened tenant => openKey tenant.str
  | .hosts tenant windowTs => hostsKey tenant.str windowTs
  | .window tenant host windowTs =>
      windowKey tenant.str host windowTs
  | .graph tenant windowTs => graphKey tenant.str windowTs
  | .peers tenant host => peersKey tenant.str host
  | .prev tenant host => prevKey tenant.str host
  | .episode tenant hostId => episodeKeyText tenant.str hostId
  | .seq tenant hostId => seqKeyText tenant.str hostId

def kind : RedisKey → KeyKind
  | .opened _ => .opened
  | .hosts _ _ => .hosts
  | .window _ _ _ => .window
  | .graph _ _ => .graph
  | .peers _ _ => .peers
  | .prev _ _ => .prev
  | .episode _ _ => .episode
  | .seq _ _ => .seq

/- What follows the beginning of a key. -/
def rest : RedisKey → String
  | .opened tenant => tenant.str
  | .hosts tenant windowTs =>
      tenant.str ++ ":" ++ toString windowTs
  | .window tenant host windowTs =>
      tenant.str ++ ":" ++ host ++ ":" ++ toString windowTs
  | .graph tenant windowTs =>
      tenant.str ++ ":" ++ toString windowTs
  | .peers tenant host => tenant.str ++ ":" ++ host
  | .prev tenant host => tenant.str ++ ":" ++ host
  | .episode tenant hostId => tenant.str ++ ":" ++ hostId
  | .seq tenant hostId => tenant.str ++ ":" ++ hostId

theorem text_eq (key : RedisKey) :
    key.text = key.kind.beginning ++ key.rest := by
  cases key <;>
    simp only [text, kind, rest, KeyKind.beginning, openKey,
      hostsKey, windowKey, graphKey, peersKey, prevKey,
      episodeKeyText, seqKeyText, String.append_assoc]

/- No kind begins as another one does. -/
theorem kind_eq_of_text_eq
    {key key' : RedisKey}
    (hText : key.text = key'.text) :
    key.kind = key'.kind := by
  have hFree :
      ∀ k k' : KeyKind,
        k.beginning.toList <+: k'.beginning.toList →
          k = k' := by
    intro k k'
    cases k <;> cases k' <;> decide
  rw [text_eq, text_eq] at hText
  have hList := congrArg String.toList hText
  rw [String.toList_append, String.toList_append] at hList
  have hFirst :
      key.kind.beginning.toList <+:
        key'.kind.beginning.toList ++ key'.rest.toList :=
    ⟨_, hList⟩
  rcases List.prefix_or_prefix_of_prefix hFirst
    (List.prefix_append _ _) with hLe | hGe
  · exact hFree _ _ hLe
  · exact (hFree _ _ hGe).symm

/- A UUID is written without the separator. -/
theorem colon_notMem_str (tenant : Uuid) :
    ':' ∉ tenant.str.toList := by
  intro hMem
  rcases Uuid.mem_str hMem with hDash | ⟨d, hDigit, hC⟩
  · exact absurd hDash (by decide)
  · interval_cases d <;> exact absurd hC (by decide)

theorem str_injective :
    Function.Injective Uuid.str := by
  intro a b hSame
  have hText := congrArg Uuid.ofText hSame
  rw [Uuid.ofText_str, Uuid.ofText_str] at hText
  exact Option.some.inj hText

/- The tenant of a key ends at the first separator. -/
theorem split_tenant
    {a b : Uuid}
    {x y : String}
    (hSame : a.str ++ ":" ++ x = b.str ++ ":" ++ y) :
    a = b ∧ x = y := by
  have hList := congrArg String.toList hSame
  simp only [String.toList_append, List.append_assoc] at hList
  rcases List.split_at_first (colon_notMem_str a)
    (colon_notMem_str b) hList with ⟨hTenant, hRest⟩
  exact ⟨str_injective (String.toList_injective hTenant),
    String.toList_injective hRest⟩

/- The window of a key begins after the last separator. -/
theorem split_window
    {a b : Uuid}
    {host host' : String}
    {windowTs windowTs' : ℤ}
    (hSame :
      a.str ++ ":" ++ host ++ ":" ++ toString windowTs =
        b.str ++ ":" ++ host' ++ ":" ++ toString windowTs') :
    a = b ∧ host = host' ∧ windowTs = windowTs' := by
  have hLast :=
    String.split_at_last
      (not_mem_toString_int (c := ':') (by decide)
        (by decide) windowTs)
      (not_mem_toString_int (by decide) (by decide) windowTs')
      hSame
  rcases split_tenant hLast.1 with ⟨hTenant, hHost⟩
  exact ⟨hTenant, hHost, Int.repr_injective hLast.2⟩

/- Different keys of tenants never have the same text. -/
theorem text_injective :
    Function.Injective RedisKey.text := by
  intro key key' hText
  have hKind := kind_eq_of_text_eq hText
  have hRest : key.rest = key'.rest := by
    rw [text_eq, text_eq, hKind] at hText
    have hList := congrArg String.toList hText
    rw [String.toList_append, String.toList_append] at hList
    exact String.toList_injective
      (List.append_cancel_left hList)
  cases key <;> cases key' <;> cases hKind
  case opened.opened tenant tenant' =>
    rw [str_injective hRest]
  case hosts.hosts tenant windowTs tenant' windowTs' =>
    rcases split_tenant hRest with ⟨rfl, hTs⟩
    rw [Int.repr_injective hTs]
  case window.window tenant host windowTs tenant' host'
      windowTs' =>
    rcases split_window hRest with ⟨rfl, rfl, rfl⟩
    rfl
  case graph.graph tenant windowTs tenant' windowTs' =>
    rcases split_tenant hRest with ⟨rfl, hTs⟩
    rw [Int.repr_injective hTs]
  case peers.peers tenant host tenant' host' =>
    rcases split_tenant hRest with ⟨rfl, rfl⟩
    rfl
  case prev.prev tenant host tenant' host' =>
    rcases split_tenant hRest with ⟨rfl, rfl⟩
    rfl
  case episode.episode tenant hostId tenant' hostId' =>
    rcases split_tenant hRest with ⟨rfl, rfl⟩
    rfl
  case seq.seq tenant hostId tenant' hostId' =>
    rcases split_tenant hRest with ⟨rfl, rfl⟩
    rfl

end RedisKey

end Nidra
