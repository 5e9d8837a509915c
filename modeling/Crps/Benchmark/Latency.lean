import Crps.Benchmark.Reflection

/-!
# What the benchmark measures

Every latency in a generator's results is the time from the publishing of a
ping until the arrival of a pong that the reflector it is listed under has made
of it. The ping need not be the generator's own: nobody looks at the
generator's id. Where nothing is lost, every ping is measured so.
-/

namespace Crps
namespace Benchmark

variable {ι : Type} [DecidableEq ι] {net : Deployment ι} {apps : ι → BenchmarkNode}
variable {clock : ℕ → UInt64} {nodes : ι → Node} {b : Benchmark ι}

/-- A message that a generator measures has gone the whole way. -/
theorem roundTrip_of_measured (hsetUp : ∀ i, (apps i).setUp = some (nodes i))
    (h : Measured apps clock b) {bus : Bus (ι × ℕ) (ι × ℕ) Bytes}
    (hruns : Bus.Runs (System.busShape nodes) .empty b.seen bus) {i : ι} {n k : ℕ}
    {message : Bytes} (hat : b.seen[n]? = some (.callback (i, k) message))
    (hgenerator : (apps i).benchNodeType = "generator")
    (hlength : message.length = (apps i).messageSize.toNat) :
    ∃ g r n₀ n₁ n₂ ping, RoundTrip apps clock b g r i ping message n₀ n₁ n₂ n := by
  -- who has published what `i` got
  obtain ⟨⟨r, k₂⟩, n₂, hn₂, hhears, hreflected⟩ := hruns.heard hat
  obtain ⟨hk₂, hk, htopic, htype, hother⟩ := hears_cases hsetUp hhears
  simp only at hk₂ hk htopic htype hother
  subst hk₂ hk
  have hreflector : (apps r).benchNodeType ≠ "generator" := fun hr => hother.mp hr hgenerator
  obtain ⟨_, hmade⟩ := h.made n₂ r 0 message true hreflected
  cases hmade with
  | ping _ hr => exact absurd hr hreflector
  | @pong k₁ ping _ hcallback hping =>
    obtain ⟨n₁, hn₁⟩ := List.mem_iff_getElem?.mp hcallback
    have hn₁₂ : n₁ < n₂ := by
      have hbound := (List.getElem?_eq_some_iff.mp hn₁).1
      rw [List.length_take] at hbound
      omega
    rw [List.getElem?_take_of_lt hn₁₂] at hn₁
    -- and who has published what `r` got
    obtain ⟨⟨g, k₀⟩, n₀, hn₀, hhears', hpublished⟩ := hruns.heard hn₁
    obtain ⟨hk₀, hk₁, htopic', htype', hother'⟩ := hears_cases hsetUp hhears'
    simp only at hk₀ hk₁ htopic' htype' hother'
    subst hk₀ hk₁
    have hg : (apps g).benchNodeType = "generator" := hother'.mpr hreflector
    have hr := (BenchmarkNode.equips_of_setUp (hsetUp r)).type.resolve_left hreflector
    obtain ⟨_, hmade'⟩ := h.made n₀ g 0 ping true hpublished
    rw [BenchmarkHeader.length_stamp] at hlength
    cases hmade' with
    | pong _ hg' => exact absurd hg hg'
    | ping counter _ =>
      refine ⟨g, r, n₀, n₁, n₂, _, ⟨hg, hr, hgenerator⟩, ⟨⟨htopic', htype', ?_⟩,
        ⟨htopic, htype, ?_⟩⟩, ⟨counter, rfl⟩, rfl, ⟨hn₀, hn₁₂, hn₂⟩, hpublished, hn₁, hreflected,
        hat⟩
      · rw [BenchmarkHeader.length_ping] at hping
        exact UInt32.toNat_inj.mp hping
      · exact UInt32.toNat_inj.mp (hping.symm.trans hlength)

/-- Results list each reflector once. All that they say of it are times from the publishing of a
ping to the arrival of the pong that this reflector has made of it: at least one, how many, the
shortest and the longest. -/
theorem measures_roundTrips (hsetUp : ∀ i, (apps i).setUp = some (nodes i))
    {as : List (BenchmarkAction ι)} (hrun : (initial nodes).run net apps clock as = some b)
    (hfit : ∀ x, DatagramsFit (nodes x) (b.system.ledger x).trace)
    (hsmall : b.system.broker.tables.Small) (i : ι) :
    (BenchmarkNode.results (b.system.node i).nodeId (b.state i)).Pairwise
        (fun row row' => row.2.1 < row'.2.1) ∧
      ∀ row ∈ BenchmarkNode.results (b.system.node i).nodeId (b.state i),
        row.2.2.Summarizes ∧ ∀ latency ∈ row.2.2.values, ∃ g r n₀ n₁ n₂ n₃ ping pong,
          RoundTrip apps clock b g r i ping pong n₀ n₁ n₂ n₃ ∧
            row.2.1 = (b.system.node r).nodeId ∧ latency = clock n₃ - clock n₀ := by
  have hmeasured := run_measured hsetUp hrun
  have hruns := run_bus (fun i => (BenchmarkNode.equips_of_setUp (hsetUp i)).created) hrun hfit
    hsmall
  refine ⟨List.pairwise_map.mpr (hmeasured.sound i).sorted, fun row hrow => ?_⟩
  obtain ⟨entry, hentry, rfl⟩ := List.mem_map.mp hrow
  refine ⟨Histogram.jsonData_summarizes ((hmeasured.sound i).filled entry hentry),
    fun latency hlatency => ?_⟩
  obtain ⟨n₃, k, pong, hat, hsampled⟩ := hmeasured.sampled i entry hentry latency hlatency
  obtain ⟨g, r, n₀, n₁, n₂, ping, htrip⟩ :=
    roundTrip_of_measured hsetUp hmeasured hruns hat hsampled.generator hsampled.length
  obtain ⟨_, hid, htimestamp⟩ := htrip.read hsetUp
  refine ⟨g, r, n₀, n₁, n₂, n₃, ping, pong, htrip, ?_, ?_⟩
  · rw [hsampled.reflector, hid]
  · rw [hsampled.difference, htimestamp]

omit [DecidableEq ι] in
theorem RoundTrip.listed {g r i : ι} {ping pong : Bytes} {n₀ n₁ n₂ n₃ : ℕ}
    (h : RoundTrip apps clock b g r i ping pong n₀ n₁ n₂ n₃)
    (hsetUp : ∀ i, (apps i).setUp = some (nodes i)) (hmeasured : Measured apps clock b) :
    ∃ row ∈ BenchmarkNode.results (b.system.node i).nodeId (b.state i),
      row.2.1 = (b.system.node r).nodeId ∧
        (clock n₃ - clock n₀ ∈ row.2.2.values ∨
          row.2.2.valuesCount = BenchmarkState.histogramSize) := by
  obtain ⟨hlength, hid, htimestamp⟩ := h.read hsetUp
  obtain ⟨entry, hentry, hkey, hholds⟩ := hmeasured.held n₃ i 0 pong (b.system.node r).nodeId
    (clock n₃ - clock n₀) h.returned ⟨h.types.2.2, hlength, hid.symm, by rw [htimestamp]⟩
  refine ⟨_, List.mem_map_of_mem hentry, hkey, hholds.imp_right fun hfull => ?_⟩
  rw [← (hmeasured.sound i).size entry hentry, ← hfull, Histogram.length_samples]
  rfl

/-- A generator and a reflector: the results list the reflector. -/
theorem measures_roundTrips_pair : ∃ as b,
    (initial pairNodes).run System.pairDeployment pairApps pairClock as = some b ∧
    BenchmarkNode.results (b.system.node false).nodeId (b.state false) ≠ [] ∧
      ∀ row ∈ BenchmarkNode.results (b.system.node false).nodeId (b.state false),
        row.2.2.Summarizes ∧ ∀ latency ∈ row.2.2.values, ∃ n₀ n₁ n₂ n₃ ping pong,
          RoundTrip pairApps pairClock b false true false ping pong n₀ n₁ n₂ n₃ ∧
            row.2.1 = (b.system.node true).nodeId ∧ latency = pairClock n₃ - pairClock n₀ := by
  obtain ⟨as, b₀, b, b', b'', ping, hreliable, hrun, hphase, hlater, hpublished, hping, hpong,
    ⟨cs, hwhole⟩, hsmall⟩ := exists_pair_carried
  obtain ⟨n₁, n₂, n₃, htrip⟩ := roundTrip_of_carries pair_setUp pair_fits hreliable hrun hlater
    hping hpong hsmall (fun x _ => hphase x) ⟨rfl, rfl, rfl⟩ ⟨⟨rfl, rfl, rfl⟩, ⟨rfl, rfl, rfl⟩⟩
    (Nat.le_refl _) hpublished
  obtain ⟨row, hrow, _⟩ := htrip.listed pair_setUp (run_measured pair_setUp hwhole)
  obtain ⟨_, hresults⟩ := measures_roundTrips pair_setUp hwhole
    (fun x _ _ p _ hp => pair_fits x p (List.mem_of_getElem? hp)) hsmall false
  refine ⟨_, b'', hwhole, List.ne_nil_of_mem hrow, fun row hrow => ?_⟩
  obtain ⟨hsummarizes, hlatencies⟩ := hresults row hrow
  refine ⟨hsummarizes, fun latency hlatency => ?_⟩
  obtain ⟨g, r, n₀, n₁, n₂, n₃, ping, pong, htrip, hreflector, hdifference⟩ :=
    hlatencies latency hlatency
  obtain rfl : g = false := by
    cases g with
    | false => rfl
    | true => exact absurd htrip.types.1 (by decide)
  obtain rfl : r = true := by
    cases r with
    | false => exact absurd htrip.types.2.1 (by decide)
    | true => rfl
  exact ⟨n₀, n₁, n₂, n₃, ping, pong, htrip, hreflector, hdifference⟩

/-- On a network that loses nothing, every ping that has been published since the processes have
connected is in the results of every generator, under every reflector, unless the histogram is
full: once nodes and broker have carried the ping to the reflector and from there the pong to the
generator, as many calls and iterations as there were messages and datagrams waiting. No reflector
ever has more than one pong waiting. -/
theorem measured_in_time (hsetUp : ∀ i, (apps i).setUp = some (nodes i))
    (hfits : ∀ i, ∀ p ∈ (nodes i).publishers, p.packetSize ≤ maxDatagramSize)
    {as bs : List (BenchmarkAction ι)} {b₀ b' b'' : Benchmark ι} {g r i : ι}
    (hreliable : ∀ a ∈ as ++ bs, a.IsReliable)
    (hrun : (initial nodes).run net apps clock as = some b₀)
    (hlater : b₀.run net apps clock bs = some b) (hping : Carries net apps clock g r b b')
    (hpong : Carries net apps clock r i b' b'') (hsmall : b''.system.broker.tables.Small)
    (hconnected : ∀ x ∈ [g, r, i], b₀.system.phase x = .connected)
    (htypes : (apps g).benchNodeType = "generator" ∧ (apps r).benchNodeType = "reflector" ∧
      (apps i).benchNodeType = "generator")
    (hpartners : Partners (apps g) (apps r) ∧ Partners (apps r) (apps i)) {n₀ : ℕ}
    (hn₀ : b₀.seen.length ≤ n₀) {ping : Bytes}
    (hpublished : b.seen[n₀]? = some (.publish (g, 0) ping true)) :
    Reflects apps b'' ∧ ∃ n₁ n₂ n₃ pong, RoundTrip apps clock b'' g r i ping pong n₀ n₁ n₂ n₃ ∧
      ∃ row ∈ BenchmarkNode.results (b''.system.node i).nodeId (b''.state i),
        row.2.1 = (b''.system.node r).nodeId ∧
          (clock n₃ - clock n₀ ∈ row.2.2.values ∨
            row.2.2.valuesCount = BenchmarkState.histogramSize) := by
  obtain ⟨cs, hcs, hcarried⟩ := hping.exists_run
  obtain ⟨ds, hds, hcarried'⟩ := hpong.exists_run
  have hwhole : (initial nodes).run net apps clock ((as ++ bs) ++ (cs ++ ds)) = some b'' :=
    run_trans (run_trans hrun hlater) (run_trans hcarried hcarried')
  have hreflects : Reflects apps b'' := run_reflects hsetUp (List.forall_mem_append.mpr
    ⟨hreliable, List.forall_mem_append.mpr ⟨hcs, hds⟩⟩) hwhole
  obtain ⟨n₁, n₂, n₃, htrip⟩ := roundTrip_of_carries hsetUp hfits hreliable hrun hlater hping hpong
    hsmall hconnected htypes hpartners hn₀ hpublished
  exact ⟨hreflects, n₁, n₂, n₃, _, htrip, htrip.listed hsetUp (run_measured hsetUp hwhole)⟩

/-- The generator's first ping. -/
theorem measured_in_time_pair : ∃ as b, ∃ n₀ n₁ n₂ n₃ ping pong,
    (initial pairNodes).run System.pairDeployment pairApps pairClock as = some b ∧
    RoundTrip pairApps pairClock b false true false ping pong n₀ n₁ n₂ n₃ ∧
      ∃ row ∈ BenchmarkNode.results (b.system.node false).nodeId (b.state false),
        row.2.1 = (b.system.node true).nodeId ∧
          (pairClock n₃ - pairClock n₀ ∈ row.2.2.values ∨
            row.2.2.valuesCount = BenchmarkState.histogramSize) := by
  obtain ⟨as, b₀, b, b', b'', ping, hreliable, hrun, hphase, hlater, hpublished, hping, hpong,
    ⟨cs, hwhole⟩, hsmall⟩ := exists_pair_carried
  obtain ⟨_, n₁, n₂, n₃, pong, htrip, hrow⟩ := measured_in_time pair_setUp pair_fits hreliable hrun
    hlater hping hpong hsmall (fun x _ => hphase x) ⟨rfl, rfl, rfl⟩
    ⟨⟨rfl, rfl, rfl⟩, ⟨rfl, rfl, rfl⟩⟩ (Nat.le_refl _) hpublished
  exact ⟨cs, b'', _, n₁, n₂, n₃, ping, pong, hwhole, htrip, hrow⟩

end Benchmark
end Crps
