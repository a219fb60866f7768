import Plusfish.DataStore.Duplicates

open memory ordered_map

namespace plusfish

namespace Request

/-- What a request asks a server for. -/
structure Asked where
  googleUrl : Option GURL
  url : Bytes
  methodField : Option HttpRequest.RequestMethod
  sslField : Option Bool
  hostField : Option Bytes
  portField : Option Int
  path : List HttpRequest.RequestField
  param : List HttpRequest.RequestField
  bodyParam : List HttpRequest.RequestField

def asked (self : Request) : Asked where
  googleUrl := self.googleUrl
  url := self.url
  methodField := self.proto.methodField
  sslField := self.proto.sslField
  hostField := self.proto.hostField
  portField := self.proto.portField
  path := self.proto.path
  param := self.proto.param
  bodyParam := self.proto.bodyParam

/-- The two ask for the same. -/
def SameAsked (request request' : Request) : Prop := request'.asked = request.asked

theorem SameAsked.refl (request : Request) : SameAsked request request := rfl

theorem SameAsked.trans (a b c : Request) (hab : SameAsked a b) (hbc : SameAsked b c) :
    SameAsked a c := Eq.trans hbc hab

/-- The first request can stand for the second: the datastore takes the two for equal, or they have
    the same method, URL and body parameters. -/
def StandsFor (sample request : Request) : Prop :=
  sample.equals request = true ∨ sample.SameSpelling request

/-- What a request stands for depends on what it asks for. -/
theorem StandsFor.of_sameAsked {sample sample' request : Request}
    (h : sample.StandsFor request) (hsame : SameAsked sample sample') :
    sample'.StandsFor request := by
  have hsame' := hsame
  simp only [SameAsked, asked, Asked.mk.injEq] at hsame'
  obtain ⟨_, hurl, hmethod, hssl, hhost, hport, hpath, hparam, hbody⟩ := hsame'
  unfold StandsFor SameSpelling at *
  rw [equals_iff] at *
  simpa only [HttpRequest.method, HttpRequest.ssl, HttpRequest.host, HttpRequest.port, hurl,
    hmethod, hssl, hhost, hport, hpath, hparam, hbody] using h

end Request

namespace DataStore

/-- A request that can stand for this one is stored at its place, or the place has no room. -/
def Covers (env : StoreEnv) (mem : Heap Request) (store : DataStore) (request : Request) : Prop :=
  (∃ sample ∈ store.siteMap request.place, (deref mem sample).StandsFor request) ∨
    (store.rootPivot env request.host).hasRoom env request.place.2 = false

/-- The two datastores let the same requests through. -/
structure SameFilters (store store' : DataStore) : Prop where
  allowedHosts : store'.allowedHosts = store.allowedHosts
  urlWhitelistRegexes : store'.urlWhitelistRegexes = store.urlWhitelistRegexes
  urlBlacklistRegexes : store'.urlBlacklistRegexes = store.urlBlacklistRegexes

/-- Requests ask for what they did, and the datastore has what it had and still takes what it
    took. -/
structure Remembers (env : StoreEnv) (before after : Heap Request × DataStore) : Prop where
  asked : Heap.Frame Request.SameAsked before.1 after.1
  samples : ∀ place, ∀ sample ∈ before.2.siteMap place, sample ∈ after.2.siteMap place
  room : ∀ name path, (after.2.rootPivot env name).hasRoom env path = true →
    (before.2.rootPivot env name).hasRoom env path = true
  inScope : ∀ request, before.2.inScope env request = true → after.2.inScope env request = true

variable {env : StoreEnv} {mem mem' : Heap Request} {store store' : DataStore} {req : Nat}

theorem SameFilters.refl (store : DataStore) : store.SameFilters store := ⟨rfl, rfl, rfl⟩

theorem SameFilters.trans {a b c : DataStore} (hab : a.SameFilters b) (hbc : b.SameFilters c) :
    a.SameFilters c :=
  ⟨hbc.allowedHosts.trans hab.allowedHosts, hbc.urlWhitelistRegexes.trans hab.urlWhitelistRegexes,
    hbc.urlBlacklistRegexes.trans hab.urlBlacklistRegexes⟩

/-- What the filters have found out about a request. The host of one that names none may change
    later. -/
structure Admits (env : StoreEnv) (store : DataStore) (request : Request) : Prop where
  valid : request.urlIsValid = true
  host : ∀ host, request.proto.hostField = some host → host ∈ store.allowedHosts
  included : ∀ regex ∈ store.urlWhitelistRegexes, env.partialMatch request.url regex = true
  notExcluded : ∀ regex ∈ store.urlBlacklistRegexes, env.partialMatch request.url regex = false

theorem Admits.of_inScope {request : Request} (h : store.inScope env request = true) :
    store.Admits env request := by
  obtain ⟨hvalid, hhost, hblack, hwhite⟩ := inScope_iff.mp h
  refine ⟨hvalid, fun host heq => ?_, hwhite, hblack⟩
  rwa [Request.host, heq] at hhost

theorem Admits.of_sameAsked {request request' : Request} (h : store.Admits env request)
    (hsame : Request.SameAsked request request') : store.Admits env request' := by
  have hgoogle : request'.googleUrl = request.googleUrl := congrArg Request.Asked.googleUrl hsame
  have hurl : request'.url = request.url := congrArg Request.Asked.url hsame
  have hhost : request'.proto.hostField = request.proto.hostField :=
    congrArg Request.Asked.hostField hsame
  refine ⟨?_, ?_, ?_, ?_⟩
  · rw [Request.urlIsValid, hgoogle]
    exact h.valid
  · rw [hhost]
    exact h.host
  · rw [hurl]
    exact h.included
  · rw [hurl]
    exact h.notExcluded

/-- More hosts may be allowed. -/
theorem Admits.of_filters {request : Request} (h : store.Admits env request)
    (hhosts : ∀ host ∈ store.allowedHosts, host ∈ store'.allowedHosts)
    (hinclude : store'.urlWhitelistRegexes = store.urlWhitelistRegexes)
    (hexclude : store'.urlBlacklistRegexes = store.urlBlacklistRegexes) :
    store'.Admits env request :=
  ⟨h.valid, fun host heq => hhosts host (h.host host heq), hinclude ▸ h.included,
    hexclude ▸ h.notExcluded⟩

theorem SameFilters.admits {request : Request} (hfilters : store.SameFilters store')
    (h : store.Admits env request) : store'.Admits env request :=
  h.of_filters (fun _ hmem => hfilters.allowedHosts.symm ▸ hmem) hfilters.urlWhitelistRegexes
    hfilters.urlBlacklistRegexes

namespace Remembers

theorem refl (state : Heap Request × DataStore) : Remembers env state state :=
  ⟨.refl Request.SameAsked.refl _, fun _ _ => id, fun _ _ => id, fun _ => id⟩

theorem trans {a b c : Heap Request × DataStore} (hab : Remembers env a b)
    (hbc : Remembers env b c) : Remembers env a c where
  asked := hab.asked.trans Request.SameAsked.trans hbc.asked
  samples place sample hmem := hbc.samples place sample (hab.samples place sample hmem)
  room name path hroom := hab.room name path (hbc.room name path hroom)
  inScope request hscope := hbc.inScope request (hab.inScope request hscope)

theorem objects (hasked : Heap.Frame Request.SameAsked mem mem') (store : DataStore) :
    Remembers env (mem, store) (mem', store) :=
  ⟨hasked, fun _ _ => id, fun _ _ => id, fun _ => id⟩

/-- Changes of the datastore that leave the pivots and the filters alone, but that may allow
    hosts. -/
theorem keep (mem : Heap Request) (hpivots : store'.sitePivots = store.sitePivots)
    (hhosts : ∀ host ∈ store.allowedHosts, host ∈ store'.allowedHosts)
    (hinclude : store'.urlWhitelistRegexes = store.urlWhitelistRegexes)
    (hexclude : store'.urlBlacklistRegexes = store.urlBlacklistRegexes) :
    Remembers env (mem, store) (mem, store') := by
  refine ⟨.refl Request.SameAsked.refl mem, fun place sample hmem => ?_, fun name path hroom => ?_,
    fun request hscope => ?_⟩
  · rwa [siteMap, hpivots, ← siteMap]
  · rwa [rootPivot, hpivots, ← rootPivot] at hroom
  · obtain ⟨hvalid, hhost, hblack, hwhite⟩ := inScope_iff.mp hscope
    refine inScope_iff.mpr ⟨hvalid, hhosts _ hhost, ?_, ?_⟩
    · rwa [hexclude]
    · rwa [hinclude]

/-- What is covered stays covered. -/
theorem covers {before after : Heap Request × DataStore} (h : Remembers env before after)
    (hallocated : ∀ place, ∀ sample ∈ before.2.siteMap place, sample < before.1.next)
    {request : Request} (hcovers : before.2.Covers env before.1 request) :
    after.2.Covers env after.1 request := by
  rcases hcovers with ⟨sample, hmem, hstands⟩ | hfull
  · have hsame := Frame.deref h.asked (hallocated _ sample hmem)
    exact Or.inl ⟨sample, h.samples _ sample hmem, hstands.of_sameAsked hsame⟩
  · refine Or.inr (Bool.eq_false_iff.mpr fun hroom => ?_)
    rw [h.room _ _ hroom] at hfull
    cases hfull

end Remembers

theorem rootPivot_placed (name : Bytes) : (store.placed env mem req).rootPivot env name =
    if (deref mem req).host = name then
      ((store.rootPivot env (deref mem req).host).insert env mem req (deref mem req).place.2).2
    else store.rootPivot env name := by
  simp only [rootPivot, placed, find_assign]
  split <;> rfl

theorem placed_remembers (env : StoreEnv) (mem : Heap Request) (store : DataStore) (req : Nat) :
    Remembers env (mem, store) (mem, store.placed env mem req) := by
  refine ⟨.refl Request.SameAsked.refl mem, fun place sample hmem => ?_, fun name path hroom => ?_,
    fun _ => id⟩
  · rw [placed_siteMap_apply]
    split
    · rename_i hplace
      rw [← hplace.2]
      exact List.mem_append_left _ hmem
    · exact hmem
  · rw [rootPivot_placed] at hroom
    split at hroom
    · rename_i heq
      subst heq
      exact Pivot.insert_hasRoom hroom
    · exact hroom

theorem addRequest_remembers (env : StoreEnv) (mem : Heap Request) (store : DataStore) (req : Nat) :
    Remembers env (mem, store) (store.addRequest env mem req).2 := by
  rcases addRequest_cases env store mem req with ⟨_, heq⟩ | ⟨_, _, heq⟩ | ⟨_, _, heq⟩
  · rw [heq]
    exact .refl _
  · rw [heq]
    exact placed_remembers env mem store req
  · rw [heq]
    have hnumbered : Remembers env (mem, store.placed env mem req)
        ((store.placed env mem req).addRequestToIdMap mem req).2 :=
      ⟨.modify Request.SameAsked.refl mem req fun _ => rfl, fun _ _ => id, fun _ _ => id,
        fun _ => id⟩
    exact (placed_remembers env mem store req).trans hnumbered

/-- A request that is in scope is covered once the datastore has been given it. -/
theorem addRequest_covers (hscope : store.inScope env (deref mem req) = true)
    (hreq : req < mem.next)
    (hallocated : ∀ place, ∀ sample ∈ store.siteMap place, sample < mem.next) :
    (store.addRequest env mem req).2.2.Covers env (store.addRequest env mem req).2.1
      (deref mem req) := by
  rcases addRequest_cases env store mem req with
    ⟨hout, _⟩ | ⟨_, hrefused, heq⟩ | ⟨_, htakes, heq⟩
  · rw [hscope] at hout
    cases hout
  · rw [heq]
    refine (placed_remembers env mem store req).covers hallocated ?_
    by_cases hroom : (store.rootPivot env (deref mem req).host).hasRoom env
      (deref mem req).place.2 = true
    · have hequal : ∃ sample ∈ store.siteMap (deref mem req).place,
          (deref mem sample).equals (deref mem req) = true := by
        by_contra hnone
        have htakes := (takes_iff env store mem req).mpr ⟨hroom, fun sample hmem heq =>
          hnone ⟨sample, hmem, heq⟩⟩
        rw [hrefused] at htakes
        cases htakes
      obtain ⟨sample, hmem, hequals⟩ := hequal
      exact Or.inl ⟨sample, hmem, Or.inl hequals⟩
    · exact Or.inr (Bool.eq_false_iff.mpr hroom)
  · rw [heq]
    have hplaced : req ∈ (store.placed env mem req).siteMap (deref mem req).place := by
      rw [placed_siteMap, if_pos htakes, SiteMap.store, Function.update_self]
      exact List.mem_append_right _ (List.mem_singleton_self req)
    have hself : (deref ((store.placed env mem req).addRequestToIdMap mem req).2.1 req).StandsFor
        (deref mem req) := by
      obtain ⟨request, hget⟩ := Heap.get?_of_lt_next hreq
      refine Or.inr ?_
      simp [addRequestToIdMap, deref, Heap.get?_modify, hget, Request.SameSpelling]
    exact Or.inl ⟨req, hplaced, hself⟩

end DataStore

end plusfish
