import ChunkSizing.Proofs.Rules.Classes
import ChunkSizing.Proofs.Service.Decision

/-!
# ChunkSizing.Proofs.Service.Influence — what a body can do to the advice.

A request that is advised is answered with the advice on the transfer that its body denotes, and
with nothing else of the body (`respond_of_status_offers`). So two such requests are told apart by
the three figures of their transfers at most, and by rules only as far as the figures are on
different sides of a limit.
-/

namespace ChunkSizing.Service

open Http

variable {estimator : Estimator} {request : Request} {transfer : Transfer}

/-- **An advised request** is answered with the advice on its transfer. -/
theorem respond_of_status_offers (hasks : AsksAdvice request)
    (hstatus : (respond estimator request).status = 200) (hoffers : Offers request transfer) :
    respond estimator request = jsonResponse 200 (estimator.advise transfer).toDocument := by
  have hdecision := (status_respond_iff estimator request 200).1 hstatus
  cases hdecision with
  | healthy hpath _ =>
    have hpaths : ("/predict-chunk-size" : String) ≠ "/health" := by decide
    exact absurd (hasks.1.symm.trans hpath) hpaths
  | advised hreadable _ => exact respond_of_offer hreadable hoffers

/-- A request for advice that is answered with advice, and the transfer in its body. -/
structure Advised (estimator : Estimator) (request : Request) (transfer : Transfer) : Prop where
  asks : AsksAdvice request
  status_eq : (respond estimator request).status = 200
  offers : Offers request transfer

theorem Advised.respond_eq (h : Advised estimator request transfer) :
    respond estimator request = jsonResponse 200 (estimator.advise transfer).toDocument :=
  respond_of_status_offers h.asks h.status_eq h.offers

/-- **What may influence advice.** Under every estimator two advised requests whose transfers agree
in size, bandwidth and latency get the same response, whatever else is in their bodies. Under rules
they get it already if the sizes select the same tier, or both none, and neither measurement is told
apart; a measurement that is absent, no number or between the limits is neutral there. -/
theorem advice_influences {request request' : Request} {transfer transfer' : Transfer} :
    (∀ estimator, Advised estimator request transfer → Advised estimator request' transfer' →
      transfer.size = transfer'.size → transfer.bandwidth = transfer'.bandwidth →
      transfer.latency = transfer'.latency →
      respond estimator request = respond estimator request') ∧
    (∀ rules : Rules, Advised rules.estimator request transfer →
      Advised rules.estimator request' transfer' → rules.Alike transfer transfer' →
      respond rules.estimator request = respond rules.estimator request') ∧
    (∀ rules : Rules, rules.Alike transfer transfer' →
      rules.estimator.advise transfer = rules.estimator.advise transfer') ∧
    (∀ (rules : Rules) (size : Int64), ∃ place, rules.Selects size place) ∧
    ∀ adjustment : Adjustment, adjustment.IsNeutral none ∧ adjustment.IsNeutral (some .nan) ∧
      ∀ value, adjustment.below ≤ value → value ≤ adjustment.above →
        adjustment.IsNeutral (some value) := by
  refine ⟨?_, ?_, ?_, Rules.exists_selects, ?_⟩
  · intro estimator h h' hsize hbandwidth hlatency
    have hadvice : estimator.advise transfer = estimator.advise transfer' := by
      unfold Estimator.advise
      rw [hsize, hbandwidth, hlatency]
    rw [h.respond_eq, h'.respond_eq, hadvice]
  · intro rules h h' halike
    rw [h.respond_eq, h'.respond_eq, halike.advise_eq]
  · intro rules halike
    exact halike.advise_eq
  · intro adjustment
    refine ⟨adjustment.isNeutral_none, adjustment.isNeutral_nan, ?_⟩
    intro value hlow hhigh
    exact Adjustment.isNeutral_of_between hlow hhigh

/-- An object with an escape in a key, a key nobody knows and a content type, and a list: sizes of
five and seven bytes are in one tier, and both latencies are long. -/
theorem advice_influences_of_list :
    let request (body : String) : Request := ⟨"POST", "/predict-chunk-size",
      [("content-type", Utf8.ofString "application/json")], Utf8.ofString body⟩
    let object := "\x7b\"latency_ms\":150,\"?\":[1],\"size_b\\u0079tes\":5,\"mime_type\":\"a\"\x7d"
    (respond Rules.standard.estimator (request object)).status = 200 ∧
      respond Rules.standard.estimator (request object) =
        respond Rules.standard.estimator (request "[7,null,null,1e3]") := by
  intro request object
  have hasks (body : String) : AsksAdvice (request body) := by
    refine ⟨?_, rfl⟩
    show (request "").path = "/predict-chunk-size"
    decide +kernel
  have hjson (body : String) : hasJson (request body) = true := by
    show hasJson (request "") = true
    decide +kernel
  have hadvised {body : String} {transfer : Transfer}
      (hlength : (Utf8.ofString body).length ≤ 2097152)
      (hread : Transfer.format.parseFront (Utf8.ofString body) = .ok transfer) :
      Advised Rules.standard.estimator (request body) transfer := by
    have hoffers : Offers (request body) transfer := offers_iff.2 hread
    refine ⟨hasks body, ?_, hoffers⟩
    exact (status_respond_iff _ _ _).2 (.advised ⟨hasks body, hjson body, hlength⟩ hoffers)
  have hobject : Advised Rules.standard.estimator (request object)
      ⟨5, some "a", none, some 150⟩ := hadvised (by decide +kernel) (by decide +kernel)
  have hlist : Advised Rules.standard.estimator (request "[7,null,null,1e3]")
      ⟨7, none, none, some 1000⟩ := hadvised (by decide +kernel) (by decide +kernel)
  have hselects {size : Int64} (h : Rules.megabytesOf size ≤ 100) :
      Rules.standard.Selects size (some 0) :=
    @Rules.Selects.tier _ _ [] _ _ rfl (fun _ h => absurd h List.not_mem_nil) h
  obtain ⟨-, hrules, -⟩ := @advice_influences (request object) (request "[7,null,null,1e3]")
    ⟨5, some "a", none, some 150⟩ ⟨7, none, none, some 1000⟩
  refine ⟨hobject.status_eq, hrules Rules.standard hobject hlist ?_⟩
  refine ⟨⟨some 0, hselects ?_, hselects ?_⟩, ?_, .above ?_ ?_⟩
  · decide +kernel
  · decide +kernel
  · exact .neutral (Adjustment.isNeutral_none _) (Adjustment.isNeutral_none _)
  · decide +kernel
  · decide +kernel

end ChunkSizing.Service
