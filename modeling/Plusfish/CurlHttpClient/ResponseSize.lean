import Plusfish.CurlHttpClient
import Plusfish.Library.Run

open transition

namespace plusfish

/-- A call of `CurlCallback`, with a chunk of `size * multiplier` bytes. -/
structure CurlWrite where
  buffer : Bytes
  size : UInt64
  multiplier : UInt64
  size_pos : 0 < size.toNat
  length_eq : buffer.length = size.toNat * multiplier.toNat

/-- A request whose response is being read, with the chunks that were accepted. -/
structure ResponseRead where
  request : Request
  accepted : List Bytes := []

namespace ResponseRead

section
variable (env : CurlEnv)

def callback (read : ResponseRead) (write : CurlWrite) : Option (Nat × Request) :=
  curlCallback env write.buffer write.size.toNat write.multiplier.toNat read.request

/-- One call. It accepts the chunk unless it returns 0. -/
def step (read : ResponseRead) (write : CurlWrite) : Option ResponseRead :=
  (read.callback env write).map fun (taken, request) =>
    { request, accepted := if taken = 0 then read.accepted else read.accepted ++ [write.buffer] }

/-- The response is no longer than the limit, and it is made of the accepted chunks. -/
structure WithinLimit (read : ResponseRead) : Prop where
  length_le : (read.request.rawResponse.length : Int) ≤ env.maxResponseReadSize.toInt
  eq_flatten : read.request.rawResponse = read.accepted.flatten

/-- The call returns with the response within the limit. Where it returns 0 for a chunk that is
    not empty, the response is what it was. -/
def KeepsToLimit (read : ResponseRead) (write : CurlWrite) : Prop :=
  (∃ next, read.step env write = some next ∧ next.WithinLimit env) ∧
    ∀ request, read.callback env write = some (0, request) → write.buffer ≠ [] →
      request.rawResponse = read.request.rawResponse

/-- One of the two tests of `CurlCallback` refuses the chunk. -/
def Refuses (read : ResponseRead) (write : CurlWrite) : Prop :=
  (2 ^ 64 - 1) / write.size.toNat < write.multiplier.toNat ∨
    sizeT env.maxResponseReadSize <
      (write.size.toNat + read.request.rawResponse.length) % 2 ^ 64

/-- The response with the whole chunk stays within the limit, or the chunk is refused and the
    response is within the limit without it. -/
def Fits (read : ResponseRead) (write : CurlWrite) : Prop :=
  ((read.request.rawResponse.length + write.buffer.length : Nat) : Int) ≤
      env.maxResponseReadSize.toInt ∨
    read.Refuses env write ∧
      (read.request.rawResponse.length : Int) ≤ env.maxResponseReadSize.toInt

instance (read : ResponseRead) (write : CurlWrite) : Decidable (read.Fits env write) :=
  inferInstanceAs (Decidable (_ ∨ (_ ∨ _) ∧ _))

end

variable {env : CurlEnv} {read : ResponseRead} {write : CurlWrite}

theorem callback_of_refuses (h : read.Refuses env write) :
    read.callback env write = some (0, read.request) := by
  unfold callback curlCallback
  by_cases hfirst : (2 ^ 64 - 1) / write.size.toNat < write.multiplier.toNat
  · rw [if_pos hfirst]
  · rw [if_neg hfirst, if_pos (h.resolve_left hfirst)]

/-- The number of bytes of a chunk that is not refused, as `ResponseCb` reads it. -/
def count (write : CurlWrite) : Int := (write.buffer.length : Int).bmod (2 ^ 32)

theorem callback_of_not_refuses (h : ¬ read.Refuses env write) :
    read.callback env write =
      if count write < 0 then none
      else some (write.buffer.length,
        read.request.responseCb (write.buffer.take (count write).toNat)) := by
  obtain ⟨hfirst, hsecond⟩ := not_or.mp h
  unfold callback curlCallback count
  rw [if_neg hfirst, if_neg hsecond, write.length_eq, Int.natCast_mul]

theorem count_of_lt {write : CurlWrite} (h : write.buffer.length < 2 ^ 31) :
    count write = write.buffer.length := by
  unfold count
  rw [Int.bmod_def]
  omega

theorem step_of_refuses (h : read.Refuses env write) : read.step env write = some read := by
  simp [step, callback_of_refuses h]

/-- A chunk that is not refused: what is appended, and what is said to be accepted. -/
theorem step_of_not_refuses (h : ¬ read.Refuses env write) :
    read.step env write =
      if count write < 0 then none
      else some
        { request := read.request.responseCb (write.buffer.take (count write).toNat)
          accepted :=
            if write.buffer.length = 0 then read.accepted
            else read.accepted ++ [write.buffer] } := by
  unfold step
  rw [callback_of_not_refuses h]
  split <;> rfl

/-- The chunks that count as accepted are the chunk itself, also where it is empty. -/
theorem flatten_accepted (accepted : List Bytes) (buffer : Bytes) :
    (if buffer.length = 0 then accepted else accepted ++ [buffer]).flatten =
      accepted.flatten ++ buffer := by
  split
  · rename_i hempty
    rw [List.length_eq_zero_iff.mp hempty, List.append_nil]
  · simp

/-- A chunk that is taken in full, or not at all, keeps the response to what was accepted. -/
theorem keepsToLimit_of_fits (hread : read.request.rawResponse = read.accepted.flatten)
    (hfits : read.Fits env write) : read.KeepsToLimit env write := by
  by_cases hrefuses : read.Refuses env write
  · have hle : (read.request.rawResponse.length : Int) ≤ env.maxResponseReadSize.toInt := by
      rcases hfits with hwhole | ⟨_, hle⟩
      · omega
      · exact hle
    refine ⟨⟨read, step_of_refuses hrefuses, hle, hread⟩, fun request h _ => ?_⟩
    rw [callback_of_refuses hrefuses] at h
    cases h
    rfl
  · have hwhole := hfits.resolve_right fun h => hrefuses h.1
    have hmax := env.maxResponseReadSize.toInt_lt
    have hcount : count write = write.buffer.length := count_of_lt (by omega)
    have hnot : ¬ count write < 0 := by omega
    refine ⟨⟨_, (step_of_not_refuses hrefuses).trans (if_neg hnot), ?_, ?_⟩,
      fun request h hne => ?_⟩
    · simpa [hcount, Request.responseCb] using hwhole
    · rw [flatten_accepted, ← hread]
      simp [hcount, Request.responseCb]
    · rw [callback_of_not_refuses hrefuses, if_neg hnot] at h
      have hempty : write.buffer.length = 0 := congrArg Prod.fst (Option.some.inj h)
      exact absurd (List.length_eq_zero_iff.mp hempty) hne

/-- Where the response is what was accepted, no more was appended than the chunk, and that fits. -/
theorem fits_of_keepsToLimit (hread : read.request.rawResponse = read.accepted.flatten)
    (hkeeps : read.KeepsToLimit env write) : read.Fits env write := by
  obtain ⟨⟨next, hstep, hnext⟩, _⟩ := hkeeps
  by_cases hrefuses : read.Refuses env write
  · rw [step_of_refuses hrefuses] at hstep
    cases hstep
    exact .inr ⟨hrefuses, hnext.length_le⟩
  · rw [step_of_not_refuses hrefuses] at hstep
    split at hstep
    · cases hstep
    · cases hstep
      have hflatten := hnext.eq_flatten
      rw [flatten_accepted, ← hread] at hflatten
      have htaken : write.buffer.take (count write).toNat = write.buffer :=
        List.append_cancel_left hflatten
      have hlength := hnext.length_le
      simp only [Request.responseCb, htaken, List.length_append] at hlength
      exact .inl hlength

theorem keepsToLimit_iff_fits (hread : read.request.rawResponse = read.accepted.flatten) :
    read.KeepsToLimit env write ↔ read.Fits env write :=
  ⟨fits_of_keepsToLimit hread, keepsToLimit_of_fits hread⟩

/-- For every sequence of calls on a request without a response: each call keeps to the limit
    exactly if each chunk fits or is refused. -/
theorem keepsToLimit_iff_fits_of_run (env : CurlEnv) {request : Request}
    (hfresh : request.rawResponse = []) (writes : List CurlWrite) :
    Along (step env) (KeepsToLimit env) { request } writes ↔
      Along (step env) (Fits env) { request } writes := by
  refine along_congr (I := fun read => read.request.rawResponse = read.accepted.flatten)
    (fun read write hread => keepsToLimit_iff_fits hread)
    (fun read write next _ hkeeps hnext => ?_) (by simpa using hfresh) writes
  obtain ⟨⟨next', hstep, hwithin⟩, _⟩ := hkeeps
  cases hnext.symm.trans hstep
  exact hwithin.eq_flatten

def smallReads : CurlEnv where
  maxActiveHandlesAllowed := 12
  maxResponseReadSize := 8
  httpProxy := []
  clientSslCert := []
  clientSslKey := []
  clientSslKeyPassword := []

/-- Three bytes that are written as one item. -/
def shortWrite : CurlWrite where
  buffer := ascii "abc"
  size := 3
  multiplier := 1
  size_pos := by decide
  length_eq := by decide

/-- Ten bytes that are written as ten items of one byte, as libcurl does. -/
def longWrite : CurlWrite where
  buffer := ascii "0123456789"
  size := 1
  multiplier := 10
  size_pos := by decide
  length_eq := by decide

/-- Two chunks fit, and the third one is refused. -/
theorem keepsToLimit_iff_fits_of_run_refused :
    (run (step smallReads) { request := {} } [shortWrite, shortWrite, shortWrite]).map
      (fun read => (read.request.rawResponse, read.accepted)) =
        some (ascii "abcabc", [ascii "abc", ascii "abc"]) ∧
    Along (step smallReads) (KeepsToLimit smallReads) { request := {} }
      [shortWrite, shortWrite, shortWrite] :=
  ⟨by decide, (keepsToLimit_iff_fits_of_run smallReads rfl _).mpr (by decide)⟩

/-- A response grows past the limit. -/
theorem longWrite_not_keepsToLimit :
    ¬ Along (step smallReads) (KeepsToLimit smallReads) { request := {} } [longWrite] := by
  rintro ⟨⟨⟨next, hstep, hwithin⟩, _⟩, _⟩
  have hlength : (step smallReads { request := {} } longWrite).map (·.request.rawResponse.length) =
      some 10 := by decide
  rw [hstep] at hlength
  have hten : next.request.rawResponse.length = 10 := Option.some.inj hlength
  have hle := hwithin.length_le
  rw [hten] at hle
  exact absurd hle (by decide)

end ResponseRead

end plusfish
