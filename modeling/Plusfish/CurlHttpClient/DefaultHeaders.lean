import Mathlib.Data.List.Induction
import Plusfish.CurlHttpClient

open ordered_map

namespace plusfish

/-- The arguments of a call of `RegisterDefaultHeader`. -/
structure HeaderRegistration where
  domain : Bytes
  name : Bytes
  value : Bytes
deriving DecidableEq

namespace CurlHttpClient

def register (client : CurlHttpClient) (registration : HeaderRegistration) : CurlHttpClient :=
  (client.registerDefaultHeader registration.domain registration.name registration.value).2

/-- No domain is stored twice, and no name for a domain. -/
structure DistinctHeaders (client : CurlHttpClient) : Prop where
  domains : (keys client.defaultHeaders).Nodup
  names : ∀ entry ∈ client.defaultHeaders, (keys entry.2).Nodup

/-- A call that is refused changes nothing, and any other one stores the value. -/
theorem register_defaultHeaders {client : CurlHttpClient} (hclient : client.DistinctHeaders)
    (registration : HeaderRegistration) :
    (client.register registration).defaultHeaders =
      if registration.name = [] ∨ registration.value = [] then client.defaultHeaders
      else put client.defaultHeaders registration.domain fun headers =>
        put (headers.getD []) registration.name fun _ => registration.value := by
  obtain ⟨domain, name, value⟩ := registration
  unfold register registerDefaultHeader
  by_cases hrefused : name = [] ∨ value = []
  · have htest : (decide (name = []) || decide (value = [])) = true := by simpa using hrefused
    simp only [htest, hrefused, if_true]
  · have htest : ¬ (decide (name = []) || decide (value = [])) = true := by simpa using hrefused
    simp only [htest, hrefused, if_false]
    have houter := replace_or_append_eq_put hclient.domains domain fun headers =>
      put (headers.getD []) name fun _ => value
    rw [← houter]
    refine if_congr Iff.rfl (List.map_congr_left fun entry hentry => ?_) ?_
    · split
      · have hinner := replace_or_append_eq_put (hclient.names entry hentry) name fun _ => value
        rw [Option.getD_some, ← hinner]
      · rfl
    · rfl

theorem DistinctHeaders.register {client : CurlHttpClient} (hclient : client.DistinctHeaders)
    (registration : HeaderRegistration) : (client.register registration).DistinctHeaders := by
  have heq := register_defaultHeaders hclient registration
  split at heq
  · exact ⟨by rw [heq]; exact hclient.domains, by rw [heq]; exact hclient.names⟩
  · refine ⟨by rw [heq]; exact nodup_keys_put _ _ hclient.domains, fun entry hentry => ?_⟩
    rw [heq] at hentry
    rcases mem_put hentry with hold | rfl
    · exact hclient.names entry hold
    · have hold : (keys ((find client.defaultHeaders registration.domain).getD [])).Nodup := by
        cases hfind : find client.defaultHeaders registration.domain with
        | none => exact List.nodup_nil
        | some headers => exact hclient.names _ (mem_of_find hfind)
      exact nodup_keys_put registration.name (fun _ => registration.value) hold

end CurlHttpClient

open CurlHttpClient

namespace CurlHttpClient

end CurlHttpClient

end plusfish
