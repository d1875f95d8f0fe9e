import Dakota.Lib.Numerals
import Mathlib

/-!
# Scales

The scaling of one component by `ScalingModel` (`src/src/ScalingModel.cpp`): its type, multiplier
and offset, and the maps `modify_n2s` and `modify_s2n` between native and scaled values.

* The real numbers are a field `K`. `LogBase` has the logarithm and the power to the base
  `SCALING_LOGBASE`, inverse to each other where the argument of the logarithm is one of its `arg`.
* `Scale` has the bits of a computed scale type. Where `SCALE_VALUE` is not set, the multiplier and
  the offset are 1 and 0, as `compute_scaling` leaves them.
-/

namespace Dakota

/-- The scale types of a specification. -/
inductive ScaleType where
  | none
  | value
  | log
  | auto
deriving DecidableEq, Repr

/-- `std::log` and `std::pow(SCALING_LOGBASE, _)`. -/
structure LogBase (K : Type) [Field K] where
  ln : K → K
  pow : K → K
  /-- `SCALING_LN_LOGBASE` -/
  lnBase : K
  lnBase_ne : lnBase ≠ 0
  /-- The arguments that have a logarithm. -/
  arg : K → Prop
  arg_ne : ∀ {y}, arg y → y ≠ 0
  pow_ln : ∀ {y}, arg y → pow (ln y / lnBase) = y

/-- The scale of one component: `scale_types[i]`, `scale_mults[i]` and `scale_offsets[i]`. -/
structure Scale (K : Type) [Field K] where
  /-- `scale_types[i] & SCALE_VALUE` -/
  value : Bool
  /-- `scale_types[i] & SCALE_LOG` -/
  log : Bool
  multiplier : K
  offset : K
  multiplier_ne : multiplier ≠ 0
  multiplier_eq : value = false → multiplier = 1
  offset_eq : value = false → offset = 0

namespace Scale

variable {K : Type} [Field K] (b : LogBase K) (s : Scale K)

/-- `SCALE_NONE`, with the default multiplier and offset. -/
def none : Scale K where
  value := false
  log := false
  multiplier := 1
  offset := 0
  multiplier_ne := one_ne_zero
  multiplier_eq _ := rfl
  offset_eq _ := rfl

/-- One component of `modify_n2s`. -/
def n2s (native : K) : K :=
  let scaled := if s.value then (native - s.offset) / s.multiplier else native
  if s.log then b.ln scaled / b.lnBase else scaled

/-- One component of `modify_s2n`. -/
def s2n (scaled : K) : K :=
  let native := if s.log then b.pow scaled else scaled
  if s.value then native * s.multiplier + s.offset else native

/-- The argument of the logarithm has one. -/
def Arg (native : K) : Prop := s.log → b.arg ((native - s.offset) / s.multiplier)

variable {b s} {x : K}

/-- Value scaling by the default multiplier and offset changes nothing. -/
theorem valueScaled_eq :
    (if s.value then (x - s.offset) / s.multiplier else x) = (x - s.offset) / s.multiplier := by
  split
  · rfl
  · next h =>
    have hv : s.value = false := by simpa using h
    rw [s.multiplier_eq hv, s.offset_eq hv, sub_zero, div_one]

theorem n2s_eq : s.n2s b x =
    if s.log then b.ln ((x - s.offset) / s.multiplier) / b.lnBase
    else (x - s.offset) / s.multiplier := by
  unfold n2s
  simp only [valueScaled_eq]

theorem s2n_eq {y : K} :
    s.s2n b y = (if s.log then b.pow y else y) * s.multiplier + s.offset := by
  unfold s2n
  by_cases hv : s.value
  · rw [if_pos hv]
  · rw [if_neg hv, s.multiplier_eq (by simpa using hv), s.offset_eq (by simpa using hv), mul_one,
      add_zero]

/-- `modify_s2n` undoes `modify_n2s`. -/
theorem s2n_n2s (h : s.Arg b x) : s.s2n b (s.n2s b x) = x := by
  have hm := s.multiplier_ne
  rw [s2n_eq, n2s_eq]
  by_cases hl : s.log
  · rw [if_pos hl, if_pos hl, b.pow_ln (h hl)]
    field_simp
    ring
  · rw [if_neg hl, if_neg hl]
    field_simp
    ring

theorem Arg.sub_ne (h : s.Arg b x) (hl : s.log) : x - s.offset ≠ 0 := by
  intro h0
  apply b.arg_ne (h hl)
  rw [h0, zero_div]

/-- The power of the scaled value, times the multiplier. -/
theorem Arg.pow_mul (h : s.Arg b x) (hl : s.log) :
    b.pow (b.ln ((x - s.offset) / s.multiplier) / b.lnBase) * s.multiplier = x - s.offset := by
  rw [b.pow_ln (h hl), div_mul_cancel₀ _ s.multiplier_ne]

end Scale

/-- `modify_n2s` -/
def modifyN2s {K : Type} [Field K] (b : LogBase K) (nativeVars : List K) (scales : List (Scale K)) :
    List K :=
  nativeVars.zipWith (fun x s => s.n2s b x) scales

/-- `modify_s2n` -/
def modifyS2n {K : Type} [Field K] (b : LogBase K) (scaledVars : List K) (scales : List (Scale K)) :
    List K :=
  scaledVars.zipWith (fun y s => s.s2n b y) scales

end Dakota
