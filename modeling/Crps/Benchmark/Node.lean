import Crps.Foundation.LittleEndian
import Crps.Node.Delivery

/-!
# The benchmark's nodes

A generator publishes pings and subscribes to the pongs; a reflector writes its
node id into every ping it gets and publishes it again as a pong. The generator
adds the time since the ping's time stamp to a histogram of the reflector named
in the pong. The record is in the host's byte order, here least significant
byte first.
-/

namespace Crps

/-! ## The record at the start of a message -/

structure BenchmarkHeader where
  generatorId : BpNodeId
  reflectorId : BpNodeId
  generatorTimestamp : UInt64
  counter : UInt64
  deriving DecidableEq, Repr

namespace BenchmarkHeader

def size : ℕ := 24

def read (message : Bytes) : BenchmarkHeader where
  generatorId := UInt32.ofNat (readField message 0 4)
  reflectorId := UInt32.ofNat (readField message 4 4)
  generatorTimestamp := UInt64.ofNat (readField message 8 8)
  counter := UInt64.ofNat (readField message 16 8)

/-- The generator's buffer: padding, and all fields but the reflector's id. -/
def ping (messageSize : ℕ) (generatorId : BpNodeId) (generatorTimestamp counter : UInt64) : Bytes :=
  writeField (writeField (writeField (List.replicate messageSize 0x42) 0 4 generatorId.toNat)
    8 8 generatorTimestamp.toNat) 16 8 counter.toNat

/-- `header->reflector_id = …`. -/
def stamp (reflectorId : BpNodeId) (message : Bytes) : Bytes :=
  writeField message 4 4 reflectorId.toNat

variable {message : Bytes} {messageSize : ℕ} {generatorId reflectorId : BpNodeId}
variable {generatorTimestamp counter : UInt64}

@[simp] theorem length_stamp (reflectorId : BpNodeId) (message : Bytes) :
    (stamp reflectorId message).length = message.length := length_writeField _ _ _ _

@[simp] theorem length_ping (messageSize : ℕ) (generatorId : BpNodeId)
    (generatorTimestamp counter : UInt64) :
    (ping messageSize generatorId generatorTimestamp counter).length = messageSize := by
  simp [ping]

theorem ofNat_toNat_mod32 (w : UInt32) : UInt32.ofNat (w.toNat % 256 ^ 4) = w := by
  rw [Nat.mod_eq_of_lt (show w.toNat < 256 ^ 4 from w.toNat_lt), UInt32.ofNat_toNat]

theorem ofNat_toNat_mod64 (w : UInt64) : UInt64.ofNat (w.toNat % 256 ^ 8) = w := by
  rw [Nat.mod_eq_of_lt (show w.toNat < 256 ^ 8 from w.toNat_lt), UInt64.ofNat_toNat]

theorem read_stamp (h : size ≤ message.length) :
    read (stamp reflectorId message) = { read message with reflectorId := reflectorId } := by
  have hroom : 4 + 4 ≤ message.length := Nat.le_trans (by decide) h
  have hother : ∀ off width, off + width ≤ 4 ∨ 4 + 4 ≤ off →
      readField (stamp reflectorId message) off width = readField message off width :=
    fun off width hapart => readField_writeField_ne hroom hapart
  have hown : readField (stamp reflectorId message) 4 4 = reflectorId.toNat % 256 ^ 4 :=
    readField_writeField hroom
  rw [read, hown, ofNat_toNat_mod32, hother 0 4 (by decide), hother 8 8 (by decide),
    hother 16 8 (by decide)]
  rfl

/-- What the generator has written, and padding where the reflector's id will be. -/
theorem read_ping (h : size ≤ messageSize) :
    read (ping messageSize generatorId generatorTimestamp counter) =
      ⟨generatorId, 0x42424242, generatorTimestamp, counter⟩ := by
  have hroom : 24 ≤ messageSize := h
  have hpadding : readField (List.replicate messageSize 0x42) 4 4 = 0x42424242 := by
    rw [readField, List.drop_replicate, List.take_replicate, Nat.min_eq_left (by omega)]
    decide
  have hlength : (List.replicate messageSize (0x42 : UInt8)).length = messageSize :=
    List.length_replicate
  simp only [read, ping]
  generalize List.replicate messageSize (0x42 : UInt8) = buffer at hpadding hlength ⊢
  subst hlength
  simp (disch := simp <;> omega) only [readField_writeField, readField_writeField_ne,
    ofNat_toNat_mod32, ofNat_toNat_mod64, hpadding]
  rfl

end BenchmarkHeader

/-! ## Histograms -/

/-- A vector of fixed length, filled up to an index. -/
structure Histogram where
  values : List UInt64
  nextIndex : ℕ
  index_le : nextIndex ≤ values.length

namespace Histogram

def create (size : ℕ) : Histogram where
  values := List.replicate size 0
  nextIndex := 0
  index_le := Nat.zero_le _

def add (h : Histogram) (value : UInt64) : Bool × Histogram :=
  if hfull : h.values.length ≤ h.nextIndex then (false, h)
  else
    (true,
      { values := h.values.set h.nextIndex value
        nextIndex := h.nextIndex + 1
        index_le := by
          rw [List.length_set]
          omega })

/-- The values added so far. -/
def samples (h : Histogram) : List UInt64 := h.values.take h.nextIndex

variable {h : Histogram} {value : UInt64}

theorem samples_create (size : ℕ) : (create size).samples = [] := List.take_zero

theorem samples_add (h : Histogram) (value : UInt64) : (h.add value).2.samples =
    if (h.add value).1 then h.samples ++ [value] else h.samples := by
  by_cases hfull : h.values.length ≤ h.nextIndex
  · simp only [add, dif_pos hfull, Bool.false_eq_true, if_false]
  · have hlt : h.nextIndex < h.values.length := by omega
    simp only [add, dif_neg hfull, if_true]
    rw [samples, List.take_add_one, List.getElem?_set_self hlt,
      List.take_set_of_le (Nat.le_refl _)]
    rfl

theorem length_samples (h : Histogram) : h.samples.length = h.nextIndex :=
  List.length_take_of_le h.index_le

@[simp] theorem length_values_add (h : Histogram) (value : UInt64) :
    (h.add value).2.values.length = h.values.length := by
  unfold add
  split_ifs
  · rfl
  · exact List.length_set

/-- The value is there, or there is no room. -/
def Holds (h : Histogram) (value : UInt64) : Prop :=
  value ∈ h.samples ∨ h.samples.length = h.values.length

theorem holds_add (h : Histogram) (value : UInt64) : (h.add value).2.Holds value := by
  unfold Holds
  rw [samples_add, length_values_add]
  split_ifs with hadded
  · exact .inl (List.mem_append_right _ (List.mem_singleton_self value))
  · right
    by_cases hfull : h.values.length ≤ h.nextIndex
    · rw [length_samples]
      exact Nat.le_antisymm h.index_le hfull
    · simp only [add, dif_neg hfull, not_true_eq_false] at hadded

theorem Holds.add (hholds : h.Holds value) (other : UInt64) : (h.add other).2.Holds value := by
  have hroom := (h.add other).2.index_le
  rw [← length_samples, length_values_add] at hroom
  unfold Holds
  rw [length_values_add, samples_add] at *
  split_ifs with hadded
  · rcases hholds with hmem | hfull
    · exact .inl (List.mem_append_left _ hmem)
    · rw [if_pos hadded, List.length_append, List.length_singleton] at hroom
      omega
  · exact hholds

theorem Holds.ne_nil (hholds : h.Holds value) (hroom : h.values.length ≠ 0) : h.samples ≠ [] := by
  rintro hempty
  rcases hholds with hmem | hfull
  · rw [hempty] at hmem
    cases hmem
  · rw [hempty] at hfull
    exact hroom hfull.symm

/-- The fold that keeps a value until it meets a better one ends with one of the best. -/
theorem foldl_best {α : Type} {better : α → α → Prop} [DecidableRel better]
    (hasymm : ∀ a b, better a b → ¬ better b a)
    (hneg : ∀ a b c, ¬ better a b → ¬ better b c → ¬ better a c) (xs : List α) (m : α) :
    (xs.foldl (fun m value => if better value m then value else m) m = m ∨
      xs.foldl (fun m value => if better value m then value else m) m ∈ xs) ∧
    ∀ v, v = m ∨ v ∈ xs →
      ¬ better v (xs.foldl (fun m value => if better value m then value else m) m) := by
  induction xs generalizing m with
  | nil =>
    refine ⟨.inl rfl, fun v hv => ?_⟩
    rcases hv with rfl | hv
    · exact fun hbetter => hasymm v v hbetter hbetter
    · cases hv
  | cons x xs ih =>
    obtain ⟨hpicked, hbest⟩ := ih (if better x m then x else m)
    rw [List.foldl_cons]
    by_cases hbetter : better x m
    · simp only [if_pos hbetter] at hpicked hbest ⊢
      have hx := hbest x (.inl rfl)
      refine ⟨.inr ?_, fun v hv => ?_⟩
      · rcases hpicked with hpicked | hpicked
        · rw [hpicked]
          exact List.mem_cons_self
        · exact List.mem_cons_of_mem x hpicked
      · rcases hv with rfl | hv
        · exact hneg v x _ (hasymm x v hbetter) hx
        · exact hbest v (List.mem_cons.mp hv)
    · simp only [if_neg hbetter] at hpicked hbest ⊢
      have hm := hbest m (.inl rfl)
      refine ⟨hpicked.imp_right (List.mem_cons_of_mem x), fun v hv => ?_⟩
      rcases hv with rfl | hv
      · exact hm
      · rcases List.mem_cons.mp hv with rfl | hv
        · exact hneg v m _ hbetter hm
        · exact hbest v (.inr hv)

/-- What `json_data` prints, but for the average. -/
structure Data where
  min : UInt64
  max : UInt64
  valuesCount : ℕ
  values : List UInt64
  deriving DecidableEq, Repr

def jsonData (h : Histogram) : Data where
  min := h.samples.foldl (fun m value => if value < m then value else m) (UInt64.ofNat (2 ^ 64 - 1))
  max := h.samples.foldl (fun m value => if m < value then value else m) 0
  valuesCount := h.nextIndex
  values := h.samples

/-- The smallest and the largest sample, and how many there are. -/
structure Data.Summarizes (data : Data) : Prop where
  min_mem : data.min ∈ data.values
  max_mem : data.max ∈ data.values
  bounds : ∀ value ∈ data.values, data.min ≤ value ∧ value ≤ data.max
  count : data.valuesCount = data.values.length

theorem jsonData_summarizes (hsome : h.samples ≠ []) : h.jsonData.Summarizes := by
  obtain ⟨first, hfirst⟩ := List.exists_mem_of_ne_nil _ hsome
  obtain ⟨hmin, hleast⟩ := @foldl_best UInt64 (fun a b => a < b) _
    (fun a b hab => by rw [UInt64.lt_iff_toNat_lt] at *; omega)
    (fun a b c hab hbc => by rw [UInt64.lt_iff_toNat_lt] at *; omega) h.samples
    (UInt64.ofNat (2 ^ 64 - 1))
  obtain ⟨hmax, hgreatest⟩ := @foldl_best UInt64 (fun a b => b < a) _
    (fun a b hab => by rw [UInt64.lt_iff_toNat_lt] at *; omega)
    (fun a b c hab hbc => by rw [UInt64.lt_iff_toNat_lt] at *; omega) h.samples 0
  have hatLeast : ∀ value ∈ h.samples, h.jsonData.min ≤ value :=
    fun value hvalue => UInt64.not_lt.mp (hleast value (.inr hvalue))
  have hatMost : ∀ value ∈ h.samples, value ≤ h.jsonData.max :=
    fun value hvalue => UInt64.not_lt.mp (hgreatest value (.inr hvalue))
  refine ⟨?_, ?_, fun value hvalue => ⟨hatLeast value hvalue, hatMost value hvalue⟩, ?_⟩
  · rcases hmin with hmin | hmin
    · -- only if all samples are the greatest number
      have hsame : first = h.jsonData.min := by
        have hle := UInt64.le_iff_toNat_le.mp (hatLeast first hfirst)
        have hgreatest : h.jsonData.min.toNat = 2 ^ 64 - 1 := congrArg UInt64.toNat hmin
        have hlt := first.toNat_lt
        rw [← UInt64.toNat_inj]
        omega
      exact hsame ▸ hfirst
    · exact hmin
  · rcases hmax with hmax | hmax
    · have hsame : first = h.jsonData.max := by
        have hle := UInt64.le_iff_toNat_le.mp (hatMost first hfirst)
        have hleast : h.jsonData.max.toNat = 0 := congrArg UInt64.toNat hmax
        rw [← UInt64.toNat_inj]
        omega
      exact hsame ▸ hfirst
    · exact hmax
  · exact (length_samples h).symm

end Histogram

/-! ## Nodes -/

/-- The options of one process. -/
structure BenchmarkNode where
  nodeName : String
  topicName : String
  messageTypeName : String
  messageSize : MessageSize
  topicPriority : TopicPriority
  benchNodeType : String

/-- What a process keeps: the number of pings and the histograms, by reflector. -/
structure BenchmarkState where
  counter : UInt64 := 0
  histograms : List (BpNodeId × Histogram) := []

namespace BenchmarkState

def histogramSize : ℕ := 1000 * 600

/-- `emplace` into a map that is ordered by key; a key that is there keeps its value. -/
def emplace (reflectorId : BpNodeId) (h : Histogram) :
    List (BpNodeId × Histogram) → List (BpNodeId × Histogram)
  | [] => [(reflectorId, h)]
  | entry :: rest =>
    if reflectorId < entry.1 then (reflectorId, h) :: entry :: rest
    else if reflectorId = entry.1 then entry :: rest
    else entry :: emplace reflectorId h rest

/-- A value that finds no room is only reported. -/
def addLatency (state : BenchmarkState) (reflectorId : BpNodeId) (latency : UInt64) :
    BenchmarkState :=
  { state with
    histograms := (emplace reflectorId (.create histogramSize) state.histograms).map fun entry =>
      if entry.1 = reflectorId then (entry.1, (entry.2.add latency).2) else entry }

variable {state : BenchmarkState} {reflectorId : BpNodeId} {latency value : UInt64}

theorem mem_emplace {h : Histogram} {entries : List (BpNodeId × Histogram)}
    {entry : BpNodeId × Histogram} (hmem : entry ∈ emplace reflectorId h entries) :
    entry = (reflectorId, h) ∨ entry ∈ entries := by
  induction entries with
  | nil => exact .inl (List.mem_singleton.mp hmem)
  | cons first rest ih =>
    unfold emplace at hmem
    split_ifs at hmem with hbefore hsame
    · exact List.mem_cons.mp hmem
    · exact .inr hmem
    · rcases List.mem_cons.mp hmem with rfl | hrest
      · exact .inr List.mem_cons_self
      · exact (ih hrest).imp_right (List.mem_cons_of_mem first)

theorem mem_addLatency {entry : BpNodeId × Histogram}
    (hentry : entry ∈ (state.addLatency reflectorId latency).histograms)
    (hvalue : value ∈ entry.2.samples) :
    (∃ old ∈ state.histograms, old.1 = entry.1 ∧ value ∈ old.2.samples) ∨
      entry.1 = reflectorId ∧ value = latency := by
  obtain ⟨old, hold, rfl⟩ := List.mem_map.mp hentry
  have hold' : value ∈ old.2.samples → ∃ e ∈ state.histograms, e.1 = old.1 ∧
      value ∈ e.2.samples := by
    intro hsample
    rcases mem_emplace hold with rfl | hmem
    · rw [Histogram.samples_create] at hsample
      cases hsample
    · exact ⟨old, hmem, rfl, hsample⟩
  split_ifs at hvalue ⊢ with hsame
  · rw [Histogram.samples_add] at hvalue
    split_ifs at hvalue
    · rcases List.mem_append.mp hvalue with hvalue | hvalue
      · exact .inl (hold' hvalue)
      · exact .inr ⟨hsame, List.mem_singleton.mp hvalue⟩
    · exact .inl (hold' hvalue)
  · exact .inl (hold' hvalue)

theorem mem_emplace_of_mem {h : Histogram} {entries : List (BpNodeId × Histogram)}
    {entry : BpNodeId × Histogram} (hmem : entry ∈ entries) :
    entry ∈ emplace reflectorId h entries := by
  induction entries with
  | nil => cases hmem
  | cons first rest ih =>
    unfold emplace
    split_ifs
    · exact List.mem_cons_of_mem _ hmem
    · exact hmem
    · rcases List.mem_cons.mp hmem with rfl | hrest
      · exact List.mem_cons_self
      · exact List.mem_cons_of_mem first (ih hrest)

theorem exists_mem_emplace (reflectorId : BpNodeId) (h : Histogram)
    (entries : List (BpNodeId × Histogram)) :
    ∃ entry ∈ emplace reflectorId h entries, entry.1 = reflectorId := by
  induction entries with
  | nil => exact ⟨_, List.mem_cons_self, rfl⟩
  | cons first rest ih =>
    unfold emplace
    split_ifs with hbefore hsame
    · exact ⟨_, List.mem_cons_self, rfl⟩
    · exact ⟨first, List.mem_cons_self, hsame.symm⟩
    · obtain ⟨entry, hmem, hkey⟩ := ih
      exact ⟨entry, List.mem_cons_of_mem first hmem, hkey⟩

/-- The reflector's histogram has the value, or no room for it. -/
def Holds (state : BenchmarkState) (reflectorId : BpNodeId) (value : UInt64) : Prop :=
  ∃ entry ∈ state.histograms, entry.1 = reflectorId ∧ entry.2.Holds value

theorem holds_addLatency (state : BenchmarkState) (reflectorId : BpNodeId) (latency : UInt64) :
    (state.addLatency reflectorId latency).Holds reflectorId latency := by
  obtain ⟨entry, hmem, hkey⟩ :=
    exists_mem_emplace reflectorId (.create histogramSize) state.histograms
  refine ⟨_, List.mem_map_of_mem hmem, ?_⟩
  rw [if_pos hkey]
  exact ⟨hkey, entry.2.holds_add latency⟩

theorem Holds.addLatency {reflectorId' : BpNodeId} (h : state.Holds reflectorId value) :
    (state.addLatency reflectorId' latency).Holds reflectorId value := by
  obtain ⟨entry, hmem, hkey, hholds⟩ := h
  refine ⟨_, List.mem_map_of_mem (mem_emplace_of_mem hmem), ?_⟩
  split_ifs
  · exact ⟨hkey, hholds.add latency⟩
  · exact ⟨hkey, hholds⟩

/-- One histogram for each reflector, in the order of their ids, none of them empty. -/
structure Sound (state : BenchmarkState) : Prop where
  sorted : state.histograms.Pairwise fun entry entry' => entry.1 < entry'.1
  size : ∀ entry ∈ state.histograms, entry.2.values.length = histogramSize
  filled : ∀ entry ∈ state.histograms, entry.2.samples ≠ []

theorem pairwise_emplace {h : Histogram} {entries : List (BpNodeId × Histogram)}
    (hsorted : entries.Pairwise fun entry entry' => entry.1 < entry'.1) :
    (emplace reflectorId h entries).Pairwise fun entry entry' => entry.1 < entry'.1 := by
  induction entries with
  | nil => exact List.pairwise_singleton _ _
  | cons first rest ih =>
    obtain ⟨hfirst, hrest⟩ := List.pairwise_cons.mp hsorted
    unfold emplace
    split_ifs with hbefore hsame
    · refine List.pairwise_cons.mpr ⟨fun entry hentry => ?_, hsorted⟩
      rcases List.mem_cons.mp hentry with rfl | hentry
      · exact hbefore
      · exact UInt32.lt_trans hbefore (hfirst entry hentry)
    · exact hsorted
    · refine List.pairwise_cons.mpr ⟨fun entry hentry => ?_, ih hrest⟩
      rcases mem_emplace hentry with rfl | hentry
      · exact UInt32.lt_of_le_of_ne (UInt32.not_lt.mp hbefore) (Ne.symm hsame)
      · exact hfirst entry hentry

theorem Sound.addLatency (h : state.Sound) : (state.addLatency reflectorId latency).Sound := by
  have hsize : ∀ entry ∈ emplace reflectorId (.create histogramSize) state.histograms,
      entry.2.values.length = histogramSize := by
    intro entry hentry
    rcases mem_emplace hentry with rfl | hmem
    · exact List.length_replicate
    · exact h.size entry hmem
  refine ⟨?_, fun entry hentry => ?_, fun entry hentry => ?_⟩
  · apply List.pairwise_map.mpr
    apply (pairwise_emplace h.sorted).imp
    intro entry entry' hlt
    split_ifs
    · exact hlt
    · exact hlt
    · exact hlt
    · exact hlt
  · obtain ⟨old, hold, rfl⟩ := List.mem_map.mp hentry
    split_ifs
    · rw [Histogram.length_values_add]
      exact hsize old hold
    · exact hsize old hold
  · obtain ⟨old, hold, rfl⟩ := List.mem_map.mp hentry
    split_ifs with hsame
    · apply (old.2.holds_add latency).ne_nil
      rw [Histogram.length_values_add, hsize old hold]
      decide
    · rcases mem_emplace hold with rfl | hmem
      · exact absurd rfl hsame
      · exact h.filled old hmem

end BenchmarkState

namespace BenchmarkNode

/-- The constructor's node name. -/
def create (nodeName topicName messageTypeName : String) (messageSize : MessageSize)
    (topicPriority : TopicPriority) (benchNodeType : String) : BenchmarkNode where
  nodeName := nodeName ++ "_" ++ benchNodeType
  topicName := topicName
  messageTypeName := messageTypeName
  messageSize := messageSize
  topicPriority := topicPriority
  benchNodeType := benchNodeType

variable (b : BenchmarkNode)

/-- `run` up to `connect`. -/
def setUp : Option Node :=
  if b.messageSize.toNat < BenchmarkHeader.size then none
  else if b.benchNodeType = "generator" then
    some (((Node.create b.nodeName).createPublisher (b.topicName ++ "_ping") b.messageTypeName
      b.messageSize b.topicPriority).createSubscriber (b.topicName ++ "_pong") b.messageTypeName
      b.messageSize b.topicPriority)
  else if b.benchNodeType = "reflector" then
    some (((Node.create b.nodeName).createPublisher (b.topicName ++ "_pong") b.messageTypeName
      b.messageSize b.topicPriority).createSubscriber (b.topicName ++ "_ping") b.messageTypeName
      b.messageSize b.topicPriority)
  else none

/-- A message as the pointer that `publish` is given. -/
def pointer (message : Bytes) : Memory := Memory.load message fun _ => 0

/-- `ping_callback` of a reflector with this node id. -/
def pingCallback (nodeId : BpNodeId) (message : Bytes) : CallbackEffect :=
  if b.messageSize.toNat ≠ message.length then { left := message }
  else
    let stamped := BenchmarkHeader.stamp nodeId message
    { left := stamped, publishes := [(0, pointer stamped)] }

/-- `pong_callback` at a time. -/
def pongCallback (now : UInt64) (message : Bytes) (state : BenchmarkState) : BenchmarkState :=
  if b.messageSize.toNat ≠ message.length then state
  else
    let header := BenchmarkHeader.read message
    state.addLatency header.reflectorId (now - header.generatorTimestamp)

/-- What the subscriber's callback does to the node. -/
def callback (nodeId : BpNodeId) (message : Bytes) : CallbackEffect :=
  if b.benchNodeType = "generator" then { left := message } else b.pingCallback nodeId message

/-- What it does to the process. -/
def callbackState (now : UInt64) (message : Bytes) (state : BenchmarkState) : BenchmarkState :=
  if b.benchNodeType = "generator" then b.pongCallback now message state else state

/-- `print_results`: generator, reflector and data of each histogram. -/
def results (nodeId : BpNodeId) (state : BenchmarkState) :
    List (BpNodeId × BpNodeId × Histogram.Data) :=
  state.histograms.map fun entry => (nodeId, entry.1, entry.2.jsonData)

/-! ## What a process sets up and measures -/

variable {b : BenchmarkNode} {n : Node} {nodeId : BpNodeId} {message : Bytes}

/-- Generators publish to the ping topic, reflectors to the pong topic. -/
def publishedTopic (b : BenchmarkNode) : String :=
  b.topicName ++ if b.benchNodeType = "generator" then "_ping" else "_pong"

def subscribedTopic (b : BenchmarkNode) : String :=
  b.topicName ++ if b.benchNodeType = "generator" then "_pong" else "_ping"

/-- A process has one publisher and one subscriber, and the record fits its messages. -/
structure Equips (b : BenchmarkNode) (n : Node) : Prop where
  created : Node.Created n
  room : BenchmarkHeader.size ≤ b.messageSize.toNat
  type : b.benchNodeType = "generator" ∨ b.benchNodeType = "reflector"
  publishers : n.publishers = [.create b.publishedTopic b.messageTypeName b.messageSize
    b.topicPriority (bpHeaderSize + bpDataHeaderSize)]
  subscribers : n.subscribers = [.create b.subscribedTopic b.messageTypeName b.messageSize
    b.topicPriority]

theorem equips_of_setUp (h : b.setUp = some n) : b.Equips n := by
  unfold setUp at h
  split_ifs at h with hsize hgenerator hreflector
  · injection h with h
    subst h
    refine ⟨.subscriber _ _ _ _ (.publisher _ _ _ _ (.create _)), not_lt.mp hsize, .inl hgenerator,
      ?_, ?_⟩
    · rw [publishedTopic, if_pos hgenerator]
      rfl
    · rw [subscribedTopic, if_pos hgenerator]
      rfl
  · injection h with h
    subst h
    refine ⟨.subscriber _ _ _ _ (.publisher _ _ _ _ (.create _)), not_lt.mp hsize, .inr hreflector,
      ?_, ?_⟩
    · rw [publishedTopic, if_neg hgenerator]
      rfl
    · rw [subscribedTopic, if_neg hgenerator]
      rfl

theorem ping_ne_pong {topic topic' : String} : topic ++ "_ping" ≠ topic' ++ "_pong" := by
  intro h
  have hlist := congrArg (fun s => s.toList.reverse.drop 2) h
  simp [String.toList_append] at hlist

/-- A subscriber listens to processes of the other type with its topic. -/
theorem topics_agree {b' : BenchmarkNode} (h : b'.publishedTopic = b.subscribedTopic) :
    b'.topicName = b.topicName ∧
      (b'.benchNodeType = "generator" ↔ b.benchNodeType ≠ "generator") := by
  have hcancel : ∀ {x y suffix : String}, x ++ suffix = y ++ suffix → x = y := by
    intro x y suffix hsame
    have hlist := congrArg String.toList hsame
    rw [String.toList_append, String.toList_append] at hlist
    exact String.toList_inj.mp (List.append_cancel_right hlist)
  unfold publishedTopic subscribedTopic at h
  by_cases hpublisher : b'.benchNodeType = "generator"
  · by_cases hsubscriber : b.benchNodeType = "generator"
    · rw [if_pos hpublisher, if_pos hsubscriber] at h
      exact absurd h ping_ne_pong
    · rw [if_pos hpublisher, if_neg hsubscriber] at h
      exact ⟨hcancel h, by simp [hpublisher, hsubscriber]⟩
  · by_cases hsubscriber : b.benchNodeType = "generator"
    · rw [if_neg hpublisher, if_pos hsubscriber] at h
      exact ⟨hcancel h, by simp [hpublisher, hsubscriber]⟩
    · rw [if_neg hpublisher, if_neg hsubscriber] at h
      exact absurd h.symm ping_ne_pong

theorem slice_pointer (message : Bytes) : (pointer message).slice 0 message.length = message :=
  Memory.slice_load_self message _

theorem mem_callback {k : ℕ} {data : Memory}
    (h : (k, data) ∈ (b.callback nodeId message).publishes) :
    b.benchNodeType ≠ "generator" ∧ message.length = b.messageSize.toNat ∧ k = 0 ∧
      data = pointer (BenchmarkHeader.stamp nodeId message) := by
  unfold callback at h
  split_ifs at h with hgenerator
  · cases h
  · unfold pingCallback at h
    split_ifs at h with hsize
    · cases h
    · rw [List.mem_singleton, Prod.mk.injEq] at h
      exact ⟨hgenerator, (not_not.mp hsize).symm, h.1, h.2⟩

end BenchmarkNode
end Crps
