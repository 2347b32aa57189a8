import DigitalObjects.IntroPods.LtEqU256
import Mathlib.Logic.Function.Iterate
set_option autoImplicit false

/-!
`VdfPod`: a chain of recursive proofs, each of which hashes once more, and the pod that
verifies the last of them.
-/

namespace DigitalObjects.IntroPods

/-- The values of the targets of `VdfInnerCircuit`, which are those of its input. -/
structure VdfInnerCircuit where
  prevCount : F
  count : F
  input : ValueTarget
  midput : ValueTarget
  output : ValueTarget
  deriving DecidableEq

structure VerifiedProofTarget where
  publicInputs : List F
  verifierDataHash : ValueTarget

/-- What the pod uses of plonky2 and pod2. -/
structure Backend where
  VerifierData : Type
  Proof : Type
  publicInputs : Proof → List F
  verify : VerifierData → Proof → Bool
  hashVerifierData : VerifierData → ValueTarget
  hashNToHashNoPad : List F → ValueTarget
  hashValue : ValueTarget → ValueTarget
  kvHash : ValueTarget → ValueTarget → ValueTarget
  fromIntLo : F → ValueTarget
  rawInt : Int64 → ValueTarget
  /-- The fields of an introduction statement with these literals as arguments. -/
  flatten : List ValueTarget → List F
  /-- The verifier data of `RecursiveCircuit<VdfInnerCircuit>`. -/
  recursive : VerifierData
  dummyRecursive : Except String (VerifierData × Proof)
  /-- `RecursiveCircuit::prove` with one inner proof. -/
  prove : VdfInnerCircuit → Proof → VerifierData → Except String Proof

/-! ## The inner circuit -/

/-- `conditional_assert_eq`. -/
def ConditionalAssertEq (condition : Bool) (x y : F) : Prop := condition = true → x = y

instance (condition : Bool) (x y : F) : Decidable (ConditionalAssertEq condition x y) :=
  inferInstanceAs (Decidable (condition = true → x = y))

def wire (publicInputs : List F) (i : Nat) : F := publicInputs.getD i 0

/-- Four public inputs from a place on. -/
def wires (publicInputs : List F) (start : Nat) : ValueTarget := fun i => wire publicInputs (start + i)

namespace VdfInnerCircuit

variable (c : VdfInnerCircuit) (verifiedProof : VerifiedProofTarget)

def isBasecase : Bool := decide (c.prevCount = 0)

def isCase1 : Bool := decide (c.prevCount = 1)

def afterCase1 : Bool := !(c.isBasecase || c.isCase1)

/-- The constraints of `VdfInnerCircuit::build`. -/
structure Build (hash : List F → ValueTarget) : Prop where
  output_h : c.output = hash (List.ofFn c.midput)
  basecase : ∀ i, ConditionalAssertEq c.isBasecase (c.input i) (c.midput i)
  prev_count : wire verifiedProof.publicInputs 0 = c.prevCount
  prev_input : ∀ i : Fin 4, ConditionalAssertEq (!c.isBasecase)
    (wire verifiedProof.publicInputs (1 + i)) (c.input i)
  prev_output : ∀ i : Fin 4, ConditionalAssertEq (!c.isBasecase)
    (wire verifiedProof.publicInputs (5 + i)) (c.midput i)
  prev_verifier_data : ∀ i : Fin 4, ConditionalAssertEq c.afterCase1
    (wire verifiedProof.publicInputs (9 + i)) (verifiedProof.verifierDataHash i)
  count : c.count = c.prevCount + 1

/-- The public inputs it registers. -/
def registered : List F :=
  c.count :: (List.ofFn c.input ++ List.ofFn c.output ++ List.ofFn verifiedProof.verifierDataHash)

@[simp] theorem wire_registered : wire (c.registered verifiedProof) 0 = c.count := rfl

@[simp] theorem wires_registered_input : wires (c.registered verifiedProof) 1 = c.input := by
  funext i
  fin_cases i <;> rfl

@[simp] theorem wires_registered_output : wires (c.registered verifiedProof) 5 = c.output := by
  funext i
  fin_cases i <;> rfl

@[simp] theorem wires_registered_verifierData :
    wires (c.registered verifiedProof) 9 = verifiedProof.verifierDataHash := by
  funext i
  fin_cases i <;> rfl

instance (hash : List F → ValueTarget) : Decidable (c.Build verifiedProof hash) :=
  decidable_of_iff
    (c.output = hash (List.ofFn c.midput) ∧
      (∀ i, ConditionalAssertEq c.isBasecase (c.input i) (c.midput i)) ∧
      wire verifiedProof.publicInputs 0 = c.prevCount ∧
      (∀ i : Fin 4, ConditionalAssertEq (!c.isBasecase)
        (wire verifiedProof.publicInputs (1 + i)) (c.input i)) ∧
      (∀ i : Fin 4, ConditionalAssertEq (!c.isBasecase)
        (wire verifiedProof.publicInputs (5 + i)) (c.midput i)) ∧
      (∀ i : Fin 4, ConditionalAssertEq c.afterCase1
        (wire verifiedProof.publicInputs (9 + i)) (verifiedProof.verifierDataHash i)) ∧
      c.count = c.prevCount + 1)
    ⟨fun ⟨h1, h2, h3, h4, h5, h6, h7⟩ => ⟨h1, h2, h3, h4, h5, h6, h7⟩,
      fun ⟨h1, h2, h3, h4, h5, h6, h7⟩ => ⟨h1, h2, h3, h4, h5, h6, h7⟩⟩

variable {c verifiedProof} {hash : List F → ValueTarget}

theorem Build.base (h : c.Build verifiedProof hash) (h0 : c.prevCount = 0) : c.midput = c.input := by
  funext i
  exact (h.basecase i (by simp [isBasecase, h0])).symm

theorem Build.previous (h : c.Build verifiedProof hash) (h0 : c.prevCount ≠ 0) :
    wires verifiedProof.publicInputs 1 = c.input ∧ wires verifiedProof.publicInputs 5 = c.midput := by
  have hnot : (!c.isBasecase) = true := by simp [isBasecase, h0]
  constructor
  · funext i
    exact h.prev_input i hnot
  · funext i
    exact h.prev_output i hnot

theorem Build.verifierData (h : c.Build verifiedProof hash) (h0 : c.prevCount ≠ 0)
    (h1 : c.prevCount ≠ 1) : wires verifiedProof.publicInputs 9 = verifiedProof.verifierDataHash := by
  funext i
  exact h.prev_verifier_data i (by simp [afterCase1, isBasecase, isCase1, h0, h1])

end VdfInnerCircuit

/-! ## Recursion -/

/-- An assignment of the recursive circuit: the inner circuit, and the proof it verifies under
verifier data that the prover chooses. -/
structure Step (B : Backend) where
  circuit : VdfInnerCircuit
  verifierData : B.VerifierData
  proof : B.Proof

namespace Backend

variable (B : Backend)

/-- One step of the delay function, as the circuit hashes. -/
def hash (v : ValueTarget) : ValueTarget := B.hashNToHashNoPad (List.ofFn v)

def verified (verifierData : B.VerifierData) (proof : B.Proof) : VerifiedProofTarget :=
  ⟨B.publicInputs proof, B.hashVerifierData verifierData⟩

variable {B}

/-- The assignment satisfies the recursive circuit, with the public inputs of the proof. -/
structure Proves (s : Step B) (proof : B.Proof) : Prop where
  verify_proof : B.verify s.verifierData s.proof = true
  build : s.circuit.Build (B.verified s.verifierData s.proof) B.hashNToHashNoPad
  registered : B.publicInputs proof = s.circuit.registered (B.verified s.verifierData s.proof)

/-- The steps from a base step to a proof, the last one first. -/
inductive Chain : List (Step B) → B.Proof → Prop where
  | base {s : Step B} {proof : B.Proof} : Proves s proof → s.circuit.prevCount = 0 → Chain [s] proof
  | step {s : Step B} {steps : List (Step B)} {proof : B.Proof} : Proves s proof →
      s.circuit.prevCount ≠ 0 → Chain steps s.proof → Chain (s :: steps) proof

/-- The number of steps is the count, and the output is the input hashed as often. -/
theorem Chain.output {steps : List (Step B)} {proof : B.Proof} (h : Chain steps proof) :
    (steps.length : F) = wire (B.publicInputs proof) 0 ∧
      wires (B.publicInputs proof) 5 = B.hash^[steps.length] (wires (B.publicInputs proof) 1) := by
  induction h with
  | @base s proof hs h0 =>
    have hmid := hs.build.base h0
    rw [hs.registered]
    simp [hs.build.count, h0, hs.build.output_h, hmid, hash]
  | @step s steps proof hs h0 hsteps ih =>
    obtain ⟨hcount, hout⟩ := ih
    obtain ⟨hin, hmid⟩ := hs.build.previous h0
    have hprev := hs.build.prev_count
    simp only [verified] at hin hmid hprev
    rw [hin, hmid] at hout
    rw [hs.registered]
    simp only [VdfInnerCircuit.wire_registered, VdfInnerCircuit.wires_registered_input,
      VdfInnerCircuit.wires_registered_output, List.length_cons, Function.iterate_succ_apply']
    constructor
    · rw [hs.build.count, ← hprev, ← hcount]
      simp
    · rw [hs.build.output_h, hout]
      rfl

/-- The first step has the input of the proof as its midput. -/
theorem Chain.first {steps : List (Step B)} {proof : B.Proof} (h : Chain steps proof) :
    ∃ s ∈ steps.getLast?, s.circuit.prevCount = 0 ∧
      s.circuit.midput = wires (B.publicInputs proof) 1 := by
  induction h with
  | @base s proof hs h0 =>
    refine ⟨s, rfl, h0, ?_⟩
    rw [hs.build.base h0, hs.registered, VdfInnerCircuit.wires_registered_input]
  | @step s steps proof hs h0 hsteps ih =>
    obtain ⟨first, hfirst, hprev, hmid⟩ := ih
    refine ⟨first, ?_, hprev, ?_⟩
    · rw [List.getLast?_cons, Option.mem_def.mp hfirst]
      rfl
    · rw [hs.registered, VdfInnerCircuit.wires_registered_input, hmid]
      exact (hs.build.previous h0).1

theorem Chain.one_le {steps : List (Step B)} {proof : B.Proof} (h : Chain steps proof) : 1 ≤ steps.length := by
  cases h <;> simp

/-- A proof under the recursive circuit comes from an assignment that satisfies it, made from a
proof that was there before. Under other verifier data nothing is known of a proof. -/
def Sound (B : Backend) (made : B.Proof → Nat) : Prop :=
  ∀ proof, B.verify B.recursive proof = true →
    ∃ s : Step B, Proves s proof ∧ made s.proof < made proof

/-- No collision of verifier data or among what is hashed, and the encodings can be read back. -/
structure CollisionFree (B : Backend) (hashed : Set (List F)) : Prop where
  hashVerifierData : Function.Injective B.hashVerifierData
  hashNToHashNoPad : Set.InjOn B.hashNToHashNoPad hashed
  kvHash : ∀ key, Function.Injective (B.kvHash key)
  flatten : ∀ {args args' : List ValueTarget}, args.length = 3 → args'.length = 3 →
    B.flatten args = B.flatten args' → args = args'
  fromIntLo : Function.Injective B.fromIntLo

/-- Verifier data is bound by the next step only, which is itself bound by the step after it, up to
the constant in the pod. So all proofs back to the base step are of the recursive circuit. -/
theorem Sound.chain {made : B.Proof → Nat} (hs : Sound B made)
    (hinj : Function.Injective B.hashVerifierData) {proof : B.Proof}
    (hv : B.verify B.recursive proof = true)
    (hhash : wires (B.publicInputs proof) 9 = B.hashVerifierData B.recursive) :
    ∃ steps, Chain steps proof := by
  induction hn : made proof using Nat.strong_induction_on generalizing proof with
  | _ n ih =>
    obtain ⟨s, hp, hlt⟩ := hs proof hv
    rw [hp.registered, VdfInnerCircuit.wires_registered_verifierData] at hhash
    have hvd : s.verifierData = B.recursive := hinj hhash
    have hv' := hp.verify_proof
    rw [hvd] at hv'
    by_cases h0 : s.circuit.prevCount = 0
    · exact ⟨[s], .base hp h0⟩
    by_cases h1 : s.circuit.prevCount = 1
    · -- nothing is asked of the hash it exposes, but its count makes it a base step
      obtain ⟨first, hfirst, -⟩ := hs s.proof hv'
      have hcount := hp.build.prev_count
      simp only [verified] at hcount
      rw [hfirst.registered, VdfInnerCircuit.wire_registered, hfirst.build.count, h1] at hcount
      have hprev : first.circuit.prevCount = 0 := by simpa using hcount
      exact ⟨[s, first], .step hp h0 (.base hfirst hprev)⟩
    · have hprev := hp.build.verifierData h0 h1
      simp only [verified, hvd] at hprev
      obtain ⟨steps, hsteps⟩ := ih _ (by omega) hv' hprev rfl
      exact ⟨s :: steps, .step hp h0 hsteps⟩

end Backend

/-! ## The pod -/

namespace VdfPod

variable (B : Backend)

/-- The statements root of a pod with this one statement. -/
def singleStatementMt (args : List ValueTarget) : ValueTarget :=
  B.kvHash 0 (B.hashNToHashNoPad (B.flatten args))

/-- The arguments of the public statement; a count from 2^32 on fails the assertion. -/
def pubRawStatements (count : F) (input output : ValueTarget) : Option (List ValueTarget) :=
  if count.val < 2 ^ 32 then some [B.rawInt (Int64.ofNat count.val), input, output] else none

def pubRawStatementsTarget (count : F) (input output : ValueTarget) : List ValueTarget :=
  [B.fromIntLo count, input, output]

/-- The arguments of the statement of the mock pod. -/
def newBoxedMock (nIters : Nat) (input : ValueTarget) : List ValueTarget :=
  [B.rawInt (Int64.ofNat nIters), input, (List.range nIters).foldl (fun output _ => B.hashValue output) input]

/-- The constraints of `VdfPodTarget::add_targets`, with the statements root it registers. -/
structure AddTargets (proof : B.Proof) (statementsRoot : ValueTarget) : Prop where
  verify_proof : B.verify B.recursive proof = true
  verifier_data_hash : ∀ i : Fin 4, wire (B.publicInputs proof) (9 + i) = B.hashVerifierData B.recursive i
  statements_root : statementsRoot = singleStatementMt B (pubRawStatementsTarget B
    (wire (B.publicInputs proof) 0) (wires (B.publicInputs proof) 1) (wires (B.publicInputs proof) 5))

/-! ## Proving -/

/-- The variables of the loop in `get_vdf_recursive_circuit_proof`. -/
structure Recursion where
  innerInputs : VdfInnerCircuit
  recursiveVerifierOnlyData : B.VerifierData
  recursiveProof : B.Proof

def baseInputs (startingInput : ValueTarget) : VdfInnerCircuit where
  prevCount := 0
  count := 1
  input := startingInput
  midput := startingInput
  output := B.hashValue startingInput

def nextInputs (c : VdfInnerCircuit) : VdfInnerCircuit where
  prevCount := c.count
  count := c.count + 1
  input := c.input
  midput := c.output
  output := B.hashValue c.output

variable {B}

def Recursion.prove (st : Recursion B) : Except String (Recursion B) := do
  let proof ← B.prove st.innerInputs st.recursiveProof st.recursiveVerifierOnlyData
  if B.verify B.recursive proof then
    return { st with recursiveProof := proof }
  else
    throw "recursive proof verification failure"

def Recursion.iteration (st : Recursion B) (i : Nat) : Except String (Recursion B) :=
  if 0 < i then
    Recursion.prove
      { st with innerInputs := nextInputs B st.innerInputs, recursiveVerifierOnlyData := B.recursive }
  else
    st.prove

variable (B)

def getVdfRecursiveCircuitProof (nIters : Nat) (startingInput : ValueTarget) :
    Except String (VdfInnerCircuit × B.Proof) :=
  if nIters < 2 then
    throw "n_iters must be equal or greater than 2"
  else do
    let (dummyVerifierOnlyData, dummyProof) ← B.dummyRecursive
    let st ← (List.range nIters).foldlM Recursion.iteration
      ⟨baseInputs B startingInput, dummyVerifierOnlyData, dummyProof⟩
    return (st.innerInputs, st.recursiveProof)

/-- The dummy proof passes with count zero, an assignment that satisfies the recursive circuit can be
proved, and what is computed outside of the circuits agrees with them. -/
structure Complete : Prop where
  dummy : ∃ verifierData proof, B.dummyRecursive = .ok (verifierData, proof) ∧
    B.verify verifierData proof = true ∧ wire (B.publicInputs proof) 0 = 0
  prove : ∀ (s : Step B), B.verify s.verifierData s.proof = true →
    s.circuit.Build (B.verified s.verifierData s.proof) B.hashNToHashNoPad →
    ∃ proof, B.prove s.circuit s.proof s.verifierData = .ok proof ∧
      B.publicInputs proof = s.circuit.registered (B.verified s.verifierData s.proof) ∧
      B.verify B.recursive proof = true
  hashValue_eq : ∀ v, B.hashValue v = B.hash v
  fromIntLo_eq : ∀ n : Nat, n < 2 ^ 32 → B.fromIntLo (n : F) = B.rawInt (Int64.ofNat n)

variable {B}

theorem Recursion.prove_eq (hc : Complete B) (st : Recursion B)
    (hv : B.verify st.recursiveVerifierOnlyData st.recursiveProof = true)
    (hb : st.innerInputs.Build (B.verified st.recursiveVerifierOnlyData st.recursiveProof)
      B.hashNToHashNoPad) :
    ∃ proof, st.prove = .ok { st with recursiveProof := proof } ∧
      B.verify B.recursive proof = true ∧
      Backend.Proves ⟨st.innerInputs, st.recursiveVerifierOnlyData, st.recursiveProof⟩ proof := by
  obtain ⟨proof, hok, hreg, hrec⟩ :=
    hc.prove ⟨st.innerInputs, st.recursiveVerifierOnlyData, st.recursiveProof⟩ hv hb
  have hok' : B.prove st.innerInputs st.recursiveProof st.recursiveVerifierOnlyData = .ok proof := hok
  refine ⟨proof, ?_, hrec, ⟨hv, hb, hreg⟩⟩
  rw [Recursion.prove, hok']
  simp [hrec, bind, Except.bind, pure, Except.pure]

/-- What holds after `n + 1` iterations. -/
structure Recursion.Reached (st : Recursion B) (input : ValueTarget) (n : Nat) : Prop where
  prev_count : st.innerInputs.prevCount = n
  count : st.innerInputs.count = n + 1
  starting_input : st.innerInputs.input = input
  output : st.innerInputs.output = B.hash^[n + 1] input
  verified : B.verify B.recursive st.recursiveProof = true
  public_count : wire (B.publicInputs st.recursiveProof) 0 = n + 1
  public_input : wires (B.publicInputs st.recursiveProof) 1 = input
  public_output : wires (B.publicInputs st.recursiveProof) 5 = B.hash^[n + 1] input
  verifier_data : 1 ≤ n →
    wires (B.publicInputs st.recursiveProof) 9 = B.hashVerifierData B.recursive
  chain : ∃ steps, Backend.Chain steps st.recursiveProof ∧ steps.length = n + 1

theorem Recursion.iteration_zero (hc : Complete B) {verifierData : B.VerifierData} {proof : B.Proof}
    (hv : B.verify verifierData proof = true) (h0 : wire (B.publicInputs proof) 0 = 0)
    (input : ValueTarget) :
    ∃ st, Recursion.iteration ⟨baseInputs B input, verifierData, proof⟩ 0 = .ok st ∧
      st.Reached input 0 := by
  have hb : (baseInputs B input).Build (B.verified verifierData proof) B.hashNToHashNoPad := by
    refine ⟨hc.hashValue_eq input, fun _ _ => rfl, h0, ?_, ?_, ?_, by simp [baseInputs]⟩ <;>
    · intro i h
      simp [VdfInnerCircuit.isBasecase, VdfInnerCircuit.afterCase1, baseInputs] at h
  obtain ⟨proof', hok, hrec, hp⟩ := Recursion.prove_eq hc ⟨baseInputs B input, verifierData, proof⟩ hv hb
  have hchain := Backend.Chain.base hp rfl
  obtain ⟨-, hout⟩ := hchain.output
  have hin : wires (B.publicInputs proof') 1 = input := by
    rw [hp.registered]
    exact VdfInnerCircuit.wires_registered_input _ _
  rw [hin] at hout
  refine ⟨_, hok, ?_⟩
  exact {
    prev_count := by simp [baseInputs]
    count := by simp [baseInputs]
    starting_input := rfl
    output := hc.hashValue_eq input
    verified := hrec
    public_count := by
      simp only [hp.registered, VdfInnerCircuit.wire_registered]
      simp [baseInputs]
    public_input := hin
    public_output := hout
    verifier_data := by omega
    chain := ⟨_, hchain, rfl⟩ }

theorem Recursion.iteration_succ (hc : Complete B) {st : Recursion B} {input : ValueTarget} {n : Nat}
    (h : st.Reached input n) (hn : n + 1 < 2 ^ 32) :
    ∃ st', st.iteration (n + 1) = .ok st' ∧ st'.Reached input (n + 1) := by
  have hne : ((n + 1 : Nat) : F) ≠ 0 := by
    intro h0
    have hdvd := (ZMod.natCast_eq_zero_iff (n + 1) goldilocks).mp h0
    have hle := Nat.le_of_dvd (by omega) hdvd
    rw [goldilocks] at hle
    omega
  have hprev : (nextInputs B st.innerInputs).prevCount = ((n + 1 : Nat) : F) := by
    rw [nextInputs, h.count]
    simp
  have hb : (nextInputs B st.innerInputs).Build (B.verified B.recursive st.recursiveProof)
      B.hashNToHashNoPad := {
    output_h := hc.hashValue_eq _
    basecase := by
      intro i h0
      exact absurd (of_decide_eq_true h0) (hprev ▸ hne)
    prev_count := h.public_count.trans (by rw [hprev]; simp)
    prev_input := fun i _ => congrFun (h.public_input.trans h.starting_input.symm) i
    prev_output := fun i _ => congrFun (h.public_output.trans h.output.symm) i
    prev_verifier_data := by
      intro i hafter
      -- from the third step on, the proof before was verified under the recursive circuit
      have hone : 1 ≤ n := by
        by_contra hlt
        have h1 : (nextInputs B st.innerInputs).prevCount = 1 := by
          rw [hprev]
          simp [show n = 0 by omega]
        simp [VdfInnerCircuit.afterCase1, VdfInnerCircuit.isCase1, h1] at hafter
      exact congrFun (h.verifier_data hone) i
    count := rfl }
  obtain ⟨steps, hsteps, hlen⟩ := h.chain
  obtain ⟨proof', hok, hrec, hp⟩ := Recursion.prove_eq hc
    { st with innerInputs := nextInputs B st.innerInputs, recursiveVerifierOnlyData := B.recursive }
    h.verified hb
  have hchain := Backend.Chain.step hp (hprev ▸ hne) hsteps
  obtain ⟨hcount, hout⟩ := hchain.output
  have hin : wires (B.publicInputs proof') 1 = input := by
    rw [hp.registered]
    exact (VdfInnerCircuit.wires_registered_input _ _).trans h.starting_input
  rw [hin, List.length_cons, hlen] at hout
  rw [List.length_cons, hlen] at hcount
  refine ⟨_, (if_pos (Nat.succ_pos n)).trans hok, ?_⟩
  exact {
    prev_count := hprev
    count := by rw [← hprev]; rfl
    starting_input := h.starting_input
    output := by
      rw [Function.iterate_succ_apply', ← h.output]
      exact hc.hashValue_eq _
    verified := hrec
    public_count := by rw [← hcount]; simp
    public_input := hin
    public_output := hout
    verifier_data := by
      intro _
      simp only [hp.registered, VdfInnerCircuit.wires_registered_verifierData]
      rfl
    chain := ⟨_, hchain, by simp [hlen]⟩ }

theorem Recursion.run (hc : Complete B) {verifierData : B.VerifierData} {proof : B.Proof}
    (hv : B.verify verifierData proof = true) (h0 : wire (B.publicInputs proof) 0 = 0)
    (input : ValueTarget) {n : Nat} (hn : n < 2 ^ 32) :
    ∃ st, (List.range (n + 1)).foldlM Recursion.iteration ⟨baseInputs B input, verifierData, proof⟩ =
      .ok st ∧ st.Reached input n := by
  induction n with
  | zero =>
    obtain ⟨st, hok, hst⟩ := Recursion.iteration_zero hc hv h0 input
    refine ⟨st, ?_, hst⟩
    simp [hok, bind, Except.bind, pure, Except.pure]
  | succ n ih =>
    obtain ⟨st, hok, hst⟩ := ih (by omega)
    obtain ⟨st', hok', hst'⟩ := Recursion.iteration_succ hc hst hn
    refine ⟨st', ?_, hst'⟩
    rw [List.range_succ, List.foldlM_append, hok]
    simp [hok', bind, Except.bind, pure, Except.pure]

theorem pubRawStatements_natCast (hc : Complete B) {n : Nat} (hn : n < 2 ^ 32) (input output : ValueTarget) :
    pubRawStatements B (n : F) input output = some (pubRawStatementsTarget B (n : F) input output) ∧
      pubRawStatementsTarget B (n : F) input output = [B.rawInt (Int64.ofNat n), input, output] := by
  have hval : (n : F).val = n := by
    apply ZMod.val_cast_of_lt
    rw [goldilocks]
    omega
  rw [pubRawStatements, hval, if_pos hn, pubRawStatementsTarget, hc.fromIntLo_eq n hn]
  exact ⟨rfl, rfl⟩

theorem newBoxedMock_eq (hc : Complete B) (n : Nat) (input : ValueTarget) :
    newBoxedMock B n input = [B.rawInt (Int64.ofNat n), input, B.hash^[n] input] := by
  have hfun : B.hashValue = B.hash := funext hc.hashValue_eq
  rw [newBoxedMock, List.foldl_const, List.length_range, hfun]

/-- An accepted statement counts the steps of the circuit from one that starts at the input, however
the inner proofs were made; and from two iterations on the prover succeeds, with the statement of the
mock pod. -/
theorem vdf_recursion {made : B.Proof → Nat} {hashed : Set (List F)} (hs : Backend.Sound B made)
    (hf : Backend.CollisionFree B hashed) (hc : Complete B) :
    (∀ (proof : B.Proof) (statementsRoot : ValueTarget) (count : F) (input output : ValueTarget),
      AddTargets B proof statementsRoot →
      statementsRoot = singleStatementMt B (pubRawStatementsTarget B count input output) →
      B.flatten (pubRawStatementsTarget B count input output) ∈ hashed →
      B.flatten (pubRawStatementsTarget B (wire (B.publicInputs proof) 0)
        (wires (B.publicInputs proof) 1) (wires (B.publicInputs proof) 5)) ∈ hashed →
      ∃ steps, Backend.Chain steps proof ∧ 1 ≤ steps.length ∧ (steps.length : F) = count ∧
        output = B.hash^[steps.length] input ∧
        ∃ s ∈ steps.getLast?, s.circuit.prevCount = 0 ∧ s.circuit.midput = input) ∧
    ∀ (nIters : Nat) (input : ValueTarget), 2 ≤ nIters → nIters < 2 ^ 32 →
      ∃ last proof steps, getVdfRecursiveCircuitProof B nIters input = .ok (last, proof) ∧
        Backend.Chain steps proof ∧ steps.length = nIters ∧
        AddTargets B proof (singleStatementMt B (newBoxedMock B nIters input)) ∧
        last.output = B.hash^[nIters] input ∧
        pubRawStatements B last.count last.input last.output = some (newBoxedMock B nIters input) := by
  constructor
  · intro proof statementsRoot count input output hadd hroot hclaimed hexposed
    have hhash : wires (B.publicInputs proof) 9 = B.hashVerifierData B.recursive :=
      funext hadd.verifier_data_hash
    obtain ⟨steps, hsteps⟩ := hs.chain hf.hashVerifierData hadd.verify_proof hhash
    rw [hadd.statements_root] at hroot
    have hfields := hf.hashNToHashNoPad hexposed hclaimed (hf.kvHash 0 hroot)
    have hargs := hf.flatten rfl rfl hfields
    simp only [pubRawStatementsTarget, List.cons.injEq, and_true] at hargs
    obtain ⟨hcount, hin, hout⟩ := hargs
    have hcount' := hf.fromIntLo hcount
    have hspec := hsteps.output
    have hfirst := hsteps.first
    rw [hin] at hfirst
    rw [hcount', hin, hout] at hspec
    exact ⟨steps, hsteps, hsteps.one_le, hspec.1, hspec.2, hfirst⟩
  · intro nIters input h2 hlt
    obtain ⟨verifierData, proof, hdummy, hv, h0⟩ := hc.dummy
    obtain ⟨n, rfl⟩ : ∃ n, nIters = n + 1 := ⟨nIters - 1, by omega⟩
    obtain ⟨st, hok, hst⟩ := Recursion.run hc hv h0 input (n := n) (by omega)
    obtain ⟨steps, hsteps, hlen⟩ := hst.chain
    have hcast : ((n + 1 : Nat) : F) = n + 1 := by simp
    obtain ⟨hraw, htarget⟩ := pubRawStatements_natCast hc hlt input (B.hash^[n + 1] input)
    refine ⟨st.innerInputs, st.recursiveProof, steps, ?_, hsteps, hlen, ⟨hst.verified, ?_, ?_⟩,
      hst.output, ?_⟩
    · rw [getVdfRecursiveCircuitProof, if_neg (by omega), hdummy]
      simp [hok, bind, Except.bind, pure, Except.pure]
    · exact congrFun (hst.verifier_data (by omega))
    · rw [newBoxedMock_eq hc, hst.public_count, hst.public_input, hst.public_output, ← hcast, htarget]
    · rw [hst.count, hst.starting_input, hst.output, newBoxedMock_eq hc, ← hcast, hraw, htarget]

/-! A backend whose proofs are the assignments they were made from, or public inputs that nobody
checked, under other verifier data. -/

inductive TermProof where
  | other (publicInputs : List F)
  | step (circuit : VdfInnerCircuit) (recursive : Bool) (inner : TermProof)

namespace TermProof

def hashVerifierData (recursive : Bool) : ValueTarget := fun _ => if recursive then 1 else 0

def hash (l : List F) : ValueTarget := fun i => l.getD i 0 + 1

def publicInputs : TermProof → List F
  | .other pis => pis
  | .step c recursive inner => c.registered ⟨inner.publicInputs, hashVerifierData recursive⟩

def size : TermProof → Nat
  | .other _ => 0
  | .step _ _ inner => inner.size + 1

def verify : Bool → TermProof → Bool
  | recursive, .other _ => !recursive
  | recursive, .step c innerRecursive inner => recursive && inner.verify innerRecursive &&
      decide (c.Build ⟨inner.publicInputs, hashVerifierData innerRecursive⟩ hash)

def backend : Backend where
  VerifierData := Bool
  Proof := TermProof
  publicInputs := publicInputs
  verify := verify
  hashVerifierData := hashVerifierData
  hashNToHashNoPad := hash
  hashValue v := hash (List.ofFn v)
  kvHash key value := key + value
  fromIntLo count i := if i = 0 then count else 0
  rawInt n i := if i = 0 then (n.toInt : F) else 0
  flatten args := args.flatMap List.ofFn
  recursive := true
  dummyRecursive := .ok (false, .other (List.replicate 13 0))
  prove c inner recursive :=
    let proof := TermProof.step c recursive inner
    if proof.verify true then .ok proof else .error "unsatisfied"

theorem term_sound : Backend.Sound backend size := by
  intro proof hv
  cases proof with
  | other pis => exact absurd hv Bool.false_ne_true
  | step c recursive inner =>
    have hv' : (true && inner.verify recursive &&
      decide (c.Build ⟨inner.publicInputs, hashVerifierData recursive⟩ hash)) = true := hv
    simp only [Bool.true_and, Bool.and_eq_true, decide_eq_true_eq] at hv'
    exact ⟨⟨c, recursive, inner⟩, ⟨hv'.1, hv'.2, rfl⟩, Nat.lt_succ_self _⟩

/-- The statements of the runs from zero. -/
def hashed : Set (List F) :=
  {l | ∃ n : Nat, l = backend.flatten (pubRawStatementsTarget backend (n : F) 0 (backend.hash^[n] 0))}

theorem iterate_hash (n : Nat) : backend.hash^[n] 0 = fun _ => (n : F) := by
  induction n with
  | zero => funext i; simp
  | succ n ih =>
    rw [Function.iterate_succ_apply', ih]
    funext i
    fin_cases i <;> simp [Backend.hash, backend, hash]

theorem collisionFree : Backend.CollisionFree backend hashed where
  hashVerifierData := by
    have hbool : ∀ a b : Bool, hashVerifierData a 0 = hashVerifierData b 0 → a = b := by decide
    exact fun a b h => hbool a b (congrFun h 0)
  hashNToHashNoPad := by
    intro l hl m hm h
    obtain ⟨n, rfl⟩ := hl
    obtain ⟨k, rfl⟩ := hm
    have h0 : (n : F) + 1 = (k : F) + 1 := congrFun h 0
    have hcast : (n : F) = (k : F) := add_right_cancel h0
    rw [iterate_hash, iterate_hash, hcast]
  kvHash := fun key _ _ h => add_left_cancel h
  flatten := by
    intro args args' hlen hlen' h
    obtain ⟨a, b, c, rfl⟩ := List.length_eq_three.mp hlen
    obtain ⟨a', b', c', rfl⟩ := List.length_eq_three.mp hlen'
    simp only [backend, List.flatMap_cons, List.flatMap_nil, List.append_nil] at h
    obtain ⟨ha, hrest⟩ := List.append_inj h (by simp)
    obtain ⟨hb, hc⟩ := List.append_inj hrest (by simp)
    rw [List.ofFn_injective ha, List.ofFn_injective hb, List.ofFn_injective hc]
  fromIntLo := fun _ _ h => congrFun h 0

theorem term_complete : Complete backend where
  dummy := ⟨false, .other (List.replicate 13 0), rfl, rfl, rfl⟩
  prove := by
    intro s hv hb
    have hok : verify true (.step s.circuit s.verifierData s.proof) = true := by
      have hv' : verify s.verifierData s.proof = true := hv
      have hb' : decide (s.circuit.Build ⟨publicInputs s.proof, hashVerifierData s.verifierData⟩ hash) =
        true := decide_eq_true hb
      simp only [verify, hv', hb', Bool.and_self]
    exact ⟨.step s.circuit s.verifierData s.proof, if_pos hok, rfl, hok⟩
  hashValue_eq := fun _ => rfl
  fromIntLo_eq := by
    intro n hn
    have hint : (Int64.ofNat n).toInt = n := Int64.toInt_ofNat_of_lt (by omega)
    funext i
    simp [backend, hint]

end TermProof

/-- Two iterations from zero. -/
def two : TermProof :=
  .step (nextInputs TermProof.backend (baseInputs TermProof.backend 0)) true
    (.step (baseInputs TermProof.backend 0) false (.other (List.replicate 13 0)))

theorem vdf_recursion_two :
    (∃ steps, Backend.Chain (B := TermProof.backend) steps two ∧ (steps.length : F) = 2) ∧
      ∃ last proof, getVdfRecursiveCircuitProof TermProof.backend 2 0 = .ok (last, proof) ∧
        last.output = TermProof.backend.hash^[2] 0 := by
  obtain ⟨haccept, hprove⟩ :=
    vdf_recursion TermProof.term_sound TermProof.collisionFree TermProof.term_complete
  have hcount : wire (TermProof.backend.publicInputs two) 0 = ((2 : Nat) : F) := by decide +kernel
  have hin : wires (TermProof.backend.publicInputs two) 1 = 0 := by decide +kernel
  have hout : wires (TermProof.backend.publicInputs two) 5 = TermProof.backend.hash^[2] 0 := by
    decide +kernel
  have hverify : TermProof.backend.verify TermProof.backend.recursive two = true := by decide +kernel
  have hmem : TermProof.backend.flatten (pubRawStatementsTarget TermProof.backend ((2 : Nat) : F) 0
      (TermProof.backend.hash^[2] 0)) ∈ TermProof.hashed := ⟨2, rfl⟩
  constructor
  · obtain ⟨steps, hsteps, -, hlen, -⟩ := haccept two _ ((2 : Nat) : F) 0
      (TermProof.backend.hash^[2] 0) ⟨hverify, by decide +kernel, rfl⟩ (by rw [hcount, hin, hout]) hmem
      (by rw [hcount, hin, hout]; exact hmem)
    exact ⟨steps, hsteps, hlen⟩
  · obtain ⟨last, proof, -, hok, -, -, -, hlast, -⟩ := hprove 2 0 (by omega) (by omega)
    exact ⟨last, proof, hok, hlast⟩

end VdfPod
end DigitalObjects.IntroPods
