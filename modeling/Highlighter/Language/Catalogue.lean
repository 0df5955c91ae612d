namespace Highlighter

inductive JetGroup
  | arithmetic
  | bitwise
  | comparison
  | crypto
  | elements
  deriving DecidableEq, Repr

namespace JetGroup

def name : JetGroup → String
  | arithmetic => "arithmetic"
  | bitwise => "bitwise"
  | comparison => "comparison"
  | crypto => "crypto"
  | elements => "elements"

def rank : JetGroup → Nat
  | arithmetic => 0
  | bitwise => 1
  | comparison => 2
  | crypto => 3
  | elements => 4

end JetGroup

structure Jet where
  name : String
  signature : String
  description : String
  group : JetGroup
  deriving DecidableEq, Repr

namespace Jet

def qualifier : String :=
  "jet::"

def qualifiedName (jet : Jet) : String :=
  qualifier ++ jet.name

open JetGroup

def catalogue : List Jet :=
  [⟨"add_8", "(Word8, Word8) -> (Bit, Word8)",
    "Addition of two 8-bit words returning carry bit and sum", arithmetic⟩,
   ⟨"add_16", "(Word16, Word16) -> (Bit, Word16)",
    "Addition of two 16-bit words returning carry bit and sum", arithmetic⟩,
   ⟨"add_32", "(Word32, Word32) -> (Bit, Word32)",
    "Addition of two 32-bit words returning carry bit and sum", arithmetic⟩,
   ⟨"add_64", "(Word64, Word64) -> (Bit, Word64)",
    "Addition of two 64-bit words returning carry bit and sum", arithmetic⟩,
   ⟨"subtract_32", "(Word32, Word32) -> (Bit, Word32)",
    "Subtraction of two 32-bit words returning borrow bit and difference", arithmetic⟩,
   ⟨"subtract_64", "(Word64, Word64) -> (Bit, Word64)",
    "Subtraction of two 64-bit words returning borrow bit and difference", arithmetic⟩,
   ⟨"multiply_32", "(Word32, Word32) -> Word64",
    "Multiply two 32-bit words producing 64-bit result", arithmetic⟩,
   ⟨"multiply_64", "(Word64, Word64) -> Word128",
    "Multiply two 64-bit words producing 128-bit result", arithmetic⟩,
   ⟨"div_mod_32", "(Word32, Word32) -> (Word32, Word32)",
    "Division and modulo of two 32-bit words", arithmetic⟩,
   ⟨"div_mod_64", "(Word64, Word64) -> (Word64, Word64)",
    "Division and modulo of two 64-bit words", arithmetic⟩,
   ⟨"and_32", "(Word32, Word32) -> Word32",
    "Bitwise AND of two 32-bit words", bitwise⟩,
   ⟨"or_32", "(Word32, Word32) -> Word32",
    "Bitwise OR of two 32-bit words", bitwise⟩,
   ⟨"xor_32", "(Word32, Word32) -> Word32",
    "Bitwise XOR of two 32-bit words", bitwise⟩,
   ⟨"complement_32", "Word32 -> Word32",
    "Bitwise NOT of 32-bit word", bitwise⟩,
   ⟨"left_shift_32", "(Word8, Word32) -> Word32",
    "Left shift 32-bit word by specified amount", bitwise⟩,
   ⟨"right_shift_32", "(Word8, Word32) -> Word32",
    "Right shift 32-bit word by specified amount", bitwise⟩,
   ⟨"eq_32", "(Word32, Word32) -> Bit",
    "Test equality of two 32-bit words", comparison⟩,
   ⟨"eq_256", "(Word256, Word256) -> Bit",
    "Test equality of two 256-bit words", comparison⟩,
   ⟨"lt_32", "(Word32, Word32) -> Bit",
    "Test if first 32-bit word is less than second", comparison⟩,
   ⟨"lt_64", "(Word64, Word64) -> Bit",
    "Test if first 64-bit word is less than second", comparison⟩,
   ⟨"is_zero_32", "Word32 -> Bit",
    "Test if 32-bit word is zero", comparison⟩,
   ⟨"sha_256", "Hash256 -> Hash256",
    "Compute SHA-256 hash", crypto⟩,
   ⟨"sha_256_block", "(Hash256, Block512) -> Hash256",
    "Process single 512-bit block through SHA256", crypto⟩,
   ⟨"sha_256_ctx_8_init", "() -> Ctx8",
    "Initialize SHA256 context", crypto⟩,
   ⟨"sha_256_ctx_8_add_32", "(Ctx8, Word32) -> Ctx8",
    "Add 32-bit data to SHA256 context", crypto⟩,
   ⟨"sha_256_ctx_8_finalize", "Ctx8 -> Hash256",
    "Finalize SHA256 hash computation", crypto⟩,
   ⟨"bip_0340_verify", "((PubKey, Word256), Sig) -> ()",
    "Verify BIP-340 Schnorr signature", crypto⟩,
   ⟨"check_sig_verify", "((PubKey, Word512), Sig) -> ()",
    "Verify Schnorr signature and fail if invalid", crypto⟩,
   ⟨"fe_normalize", "FE -> FE",
    "Normalize secp256k1 field element", crypto⟩,
   ⟨"version", "() -> Word32",
    "Get transaction version number", elements⟩,
   ⟨"lock_time", "() -> Word32",
    "Get transaction lock time", elements⟩,
   ⟨"input_index", "() -> Word32",
    "Get index of current input", elements⟩,
   ⟨"input_value", "Word32 -> Maybe Word64",
    "Get value of specified input", elements⟩,
   ⟨"input_asset", "Word32 -> Maybe ConfWord256",
    "Get asset ID of specified input", elements⟩,
   ⟨"output_value", "Word32 -> Maybe Word64",
    "Get value of specified output", elements⟩,
   ⟨"output_asset", "Word32 -> Maybe ConfWord256",
    "Get asset ID of specified output", elements⟩,
   ⟨"current_index", "() -> Word32",
    "Get index of current input being validated", elements⟩,
   ⟨"current_value", "() -> Word64",
    "Get value of current input", elements⟩,
   ⟨"num_inputs", "() -> Word32",
    "Get number of transaction inputs", elements⟩,
   ⟨"num_outputs", "() -> Word32",
    "Get number of transaction outputs", elements⟩,
   ⟨"check_lock_height", "Word32 -> ()",
    "Verify input's locktime uses block height", elements⟩,
   ⟨"check_lock_time", "Word32 -> ()",
    "Verify input's locktime uses block time", elements⟩,
   ⟨"sig_all_hash", "() -> Word256",
    "Compute SIGHASH_ALL message hash", elements⟩]

theorem nodup_names_catalogue : (catalogue.map (·.name.toList)).Nodup := by
  decide +kernel

end Jet

end Highlighter
