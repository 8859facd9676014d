import EnergyChain.Foundations.GoStrings

/-!
# x/energy: store keys

Every key starts with the byte of its table. Index keys join their field and
the identifier with a zero byte. Identifiers carry no zero byte, so an index
key can be cut at its last one.
-/

namespace EnergyChain.Energy

/-- Prefix for energy data by ID. -/
def energyDataKeyPrefix : Bytes := [0x01]
/-- Prefix for index: category -> ID. -/
def energyByCategoryPrefix : Bytes := [0x02]
/-- Prefix for index: submitter -> ID. -/
def energyBySubmitterPrefix : Bytes := [0x03]
/-- Prefix for batch submission by ID. -/
def batchSubmissionKeyPrefix : Bytes := [0x04]
/-- Key for the auto-increment data counter. -/
def dataCounterKey : Bytes := [0x05]

def paramsKey : Bytes := ascii "energy_params"

def getEnergyDataKey (id : Bytes) : Bytes := energyDataKeyPrefix ++ id

def getEnergyByCategoryPrefixKey (category : Bytes) : Bytes :=
  energyByCategoryPrefix ++ category ++ [0x00]

def getEnergyByCategoryKey (category id : Bytes) : Bytes :=
  energyByCategoryPrefix ++ category ++ [0x00] ++ id

def getEnergyBySubmitterPrefixKey (submitter : Bytes) : Bytes :=
  energyBySubmitterPrefix ++ submitter ++ [0x00]

def getEnergyBySubmitterKey (submitter id : Bytes) : Bytes :=
  energyBySubmitterPrefix ++ submitter ++ [0x00] ++ id

def getBatchSubmissionKey (id : Bytes) : Bytes := batchSubmissionKeyPrefix ++ id

/-- `fmt.Sprintf("energy-%d", seq)`. -/
def energyID (seq : ℕ) : Bytes := ascii "energy-" ++ decimal seq

theorem energyID_injective : Function.Injective energyID := by
  intro m n h
  exact decimal_injective (List.append_cancel_left h)

theorem energyID_ascii (n : ℕ) : ∀ b ∈ energyID n, b ≠ 0 ∧ b < 0x80 := by
  intro b hb
  rcases List.mem_append.mp hb with hb | hb
  · have hall : (ascii "energy-").all fun b => decide (b ≠ 0 ∧ b < 0x80) := by decide
    simpa using List.all_eq_true.mp hall b hb
  · have hd := mem_decimal hb
    refine ⟨?_, lt_of_le_of_lt hd.2 (by decide)⟩
    rintro rfl
    exact absurd hd.1 (by decide)

theorem zero_notMem_energyID (n : ℕ) : (0 : Byte) ∉ energyID n :=
  fun h => (energyID_ascii n 0 h).1 rfl

theorem validUTF8_energyID (n : ℕ) : ValidUTF8 (energyID n) :=
  validUTF8_of_ascii fun b hb => (energyID_ascii n b hb).2

/-! ### Keys of different tables differ, keys of one table determine their parts -/

@[simp] theorem getEnergyDataKey_inj {id id' : Bytes} :
    getEnergyDataKey id = getEnergyDataKey id' ↔ id = id' := by
  simp [getEnergyDataKey]

@[simp] theorem getBatchSubmissionKey_inj {id id' : Bytes} :
    getBatchSubmissionKey id = getBatchSubmissionKey id' ↔ id = id' := by
  simp [getBatchSubmissionKey]

theorem getEnergyByCategoryKey_inj {c d id id' : Bytes} (h : (0 : Byte) ∉ id)
    (h' : (0 : Byte) ∉ id') :
    getEnergyByCategoryKey c id = getEnergyByCategoryKey d id' ↔ c = d ∧ id = id' := by
  simpa [getEnergyByCategoryKey, energyByCategoryPrefix] using
    append_sep_inj_right (p := c) (q := d) h h'

theorem getEnergyBySubmitterKey_inj {s t id id' : Bytes} (h : (0 : Byte) ∉ id)
    (h' : (0 : Byte) ∉ id') :
    getEnergyBySubmitterKey s id = getEnergyBySubmitterKey t id' ↔ s = t ∧ id = id' := by
  simpa [getEnergyBySubmitterKey, energyBySubmitterPrefix] using
    append_sep_inj_right (p := s) (q := t) h h'

theorem head_key (id s : Bytes) :
    (getEnergyDataKey id).head? = some 0x01 ∧
    (getEnergyByCategoryKey s id).head? = some 0x02 ∧
    (getEnergyBySubmitterKey s id).head? = some 0x03 ∧
    (getBatchSubmissionKey id).head? = some 0x04 ∧
    dataCounterKey.head? = some 0x05 ∧ paramsKey.head? = some 0x65 :=
  ⟨rfl, rfl, rfl, rfl, rfl, rfl⟩

end EnergyChain.Energy
