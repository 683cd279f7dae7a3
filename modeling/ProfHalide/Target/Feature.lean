import Mathlib.Data.List.Basic

/-!
# The features of a target

The features are the enumerators of one enumeration, numbered as the language numbers them: one after
the other, from wherever an enumerator is given a number of its own. The target keeps the features it
has as bits under these numbers.
-/

namespace ProfHalide

/-- The numbers of enumerators in order: its own, or one more than the one before. -/
def enumerate {α : Type} (explicit : α → Option Nat) : Nat → List α → List (α × Nat)
  | _, [] => []
  | n, a :: rest => (a, (explicit a).getD n) :: enumerate explicit ((explicit a).getD n + 1) rest

inductive Feature where
  | jit | debug | noAsserts | noBoundsQuery | sse41 | avx | avx2 | fma | fma4 | f16c | armv7s
  | noNeon | vsx | powerArch207 | cuda | cudaCapability30 | cudaCapability32 | cudaCapability35
  | cudaCapability50 | cudaCapability61 | cudaCapability70 | cudaCapability75 | cudaCapability80
  | opencl | clDoubles | clAtomic64 | opengl | openglcompute | userContext | matlab | profile
  | noRuntime | metal | cPlusPlusMangling | largeBuffers | hvx128 | hvxV62 | fuzzFloatStores
  | softFloatAbi | msan | avx512 | avx512Knl | avx512Skylake | avx512Cannonlake | hvxUseSharedObject
  | traceLoads | traceStores | traceRealizations | tracePipeline | hvxV65 | hvxV66 | clHalf
  | strictFloat | tsan | asan | d3d12compute | checkUnsafePromises | hexagonDma | embedBitcode
  | enableLlvmLoopOpt | disableLlvmLoopOpt | wasmSimd128 | wasmSignext | wasmSatFloatToInt
  | wasmThreads | sve | sve2 | egl | armDotProd | llvmLargeCodeModel | papi | end_
  deriving DecidableEq, Repr

namespace Feature

def enumerators : List Feature :=
  [.jit, .debug, .noAsserts, .noBoundsQuery, .sse41, .avx, .avx2, .fma, .fma4, .f16c, .armv7s,
    .noNeon, .vsx, .powerArch207, .cuda, .cudaCapability30, .cudaCapability32, .cudaCapability35,
    .cudaCapability50, .cudaCapability61, .cudaCapability70, .cudaCapability75, .cudaCapability80,
    .opencl, .clDoubles, .clAtomic64, .opengl, .openglcompute, .userContext, .matlab, .profile,
    .noRuntime, .metal, .cPlusPlusMangling, .largeBuffers, .hvx128, .hvxV62, .fuzzFloatStores,
    .softFloatAbi, .msan, .avx512, .avx512Knl, .avx512Skylake, .avx512Cannonlake,
    .hvxUseSharedObject, .traceLoads, .traceStores, .traceRealizations, .tracePipeline, .hvxV65,
    .hvxV66, .clHalf, .strictFloat, .tsan, .asan, .d3d12compute, .checkUnsafePromises, .hexagonDma,
    .embedBitcode, .enableLlvmLoopOpt, .disableLlvmLoopOpt, .wasmSimd128, .wasmSignext,
    .wasmSatFloatToInt, .wasmThreads, .sve, .sve2, .egl, .armDotProd, .llvmLargeCodeModel, .papi,
    .end_]

/-- The numbers that the source gives. -/
def explicit : Feature → Option Nat
  | .jit => some 0
  | .papi => some 50
  | _ => none

def value (f : Feature) : Nat := ((enumerate explicit 0 enumerators).lookup f).getD 0

/-- The sentinel, and the number of bits. -/
def FeatureEnd : Nat := end_.value

/-- Up to the number that `papi` is given, features count up without a gap. -/
theorem value_eq_ctorIdx (f : Feature) (h : f ≠ .papi) (hend : f ≠ .end_) : f.value = f.ctorIdx := by
  cases f with
  | papi => exact absurd rfl h
  | end_ => exact absurd rfl hend
  | _ => rfl

/-- `papi` shares its number, and so does the sentinel behind it. -/
theorem value_papi : papi.value = hvxV66.value := rfl

theorem value_clHalf : clHalf.value = FeatureEnd := rfl

/-- No other two features share a number. -/
theorem value_injective {f g : Feature} (hf : f ≠ .papi ∧ f ≠ .end_) (hg : g ≠ .papi ∧ g ≠ .end_)
    (h : f.value = g.value) : f = g := by
  rw [value_eq_ctorIdx f hf.1 hf.2, value_eq_ctorIdx g hg.1 hg.2] at h
  rw [← ofNat_ctorIdx f, h, ofNat_ctorIdx]

end Feature

/-- The names of the features, in the order in which the map is gone through. -/
def featureNameMap : List (String × Feature) :=
  [("arm_dot_prod", .armDotProd), ("armv7s", .armv7s), ("asan", .asan), ("avx", .avx),
    ("avx2", .avx2), ("avx512", .avx512), ("avx512_cannonlake", .avx512Cannonlake),
    ("avx512_knl", .avx512Knl), ("avx512_skylake", .avx512Skylake),
    ("c_plus_plus_name_mangling", .cPlusPlusMangling),
    ("check_unsafe_promises", .checkUnsafePromises), ("cl_atomics64", .clAtomic64),
    ("cl_doubles", .clDoubles), ("cl_half", .clHalf), ("cuda", .cuda),
    ("cuda_capability_30", .cudaCapability30), ("cuda_capability_32", .cudaCapability32),
    ("cuda_capability_35", .cudaCapability35), ("cuda_capability_50", .cudaCapability50),
    ("cuda_capability_61", .cudaCapability61), ("cuda_capability_70", .cudaCapability70),
    ("cuda_capability_75", .cudaCapability75), ("cuda_capability_80", .cudaCapability80),
    ("d3d12compute", .d3d12compute), ("debug", .debug),
    ("disable_llvm_loop_opt", .disableLlvmLoopOpt), ("egl", .egl), ("embed_bitcode", .embedBitcode),
    ("enable_llvm_loop_opt", .enableLlvmLoopOpt), ("f16c", .f16c), ("fma", .fma), ("fma4", .fma4),
    ("fuzz_float_stores", .fuzzFloatStores), ("hexagon_dma", .hexagonDma), ("hvx", .hvx128),
    ("hvx_128", .hvx128), ("hvx_shared_object", .hvxUseSharedObject), ("hvx_v62", .hvxV62),
    ("hvx_v65", .hvxV65), ("hvx_v66", .hvxV66), ("jit", .jit), ("large_buffers", .largeBuffers),
    ("llvm_large_code_model", .llvmLargeCodeModel), ("matlab", .matlab), ("metal", .metal),
    ("msan", .msan), ("no_asserts", .noAsserts), ("no_bounds_query", .noBoundsQuery),
    ("no_neon", .noNeon), ("no_runtime", .noRuntime), ("opencl", .opencl), ("opengl", .opengl),
    ("openglcompute", .openglcompute), ("papi", .papi), ("power_arch_2_07", .powerArch207),
    ("profile", .profile), ("soft_float_abi", .softFloatAbi), ("sse41", .sse41),
    ("strict_float", .strictFloat), ("sve", .sve), ("sve2", .sve2), ("trace_loads", .traceLoads),
    ("trace_pipeline", .tracePipeline), ("trace_realizations", .traceRealizations),
    ("trace_stores", .traceStores), ("tsan", .tsan), ("user_context", .userContext), ("vsx", .vsx),
    ("wasm_sat_float_to_int", .wasmSatFloatToInt), ("wasm_signext", .wasmSignext),
    ("wasm_simd128", .wasmSimd128), ("wasm_threads", .wasmThreads)]

end ProfHalide
