import FuzzOne.HavocCase
/-!
# The weight-based selectors `exppp` and `expix` and the masked pick
(afl-fuzz-one.c:62-241, 3532-3537, 4790-4928)

| here | there |
| --- | --- |
| `divInf`, `fMin`, `fMax`, `infinity` | `div_inf`, `MIN`, `MAX`, `INFINITY` |
| `Exppp`, `Expix`, `ExpCfg` | `exppp_t`, `expix_t`, the `EXP_*` constants of `config.h` |
| `expppGapEstimate` ... `expppUpdateTrusts` | `exppp_gap_estimate`, `exppp_xi`, `exppp_epsilon`, `exppp_eta`, `exppp_update_trusts` |
| `expppAddReward`, `expixAddReward` | `exppp_add_reward`, `expix_add_reward` |
| `distributionPick` | the scan of `choice_from_distribution` and `expix_select_arm` |
| `expppSelectArm`, `expixSelectArm` | `exppp_select_arm`, `expix_select_arm` |
| `expHavocIteration` | one havoc iteration as the selectors see it |

These selectors read `log`, `sqrt`, `exp`, `pow` and `INFINITY`, so their doubles are Lean's
`Float`, the IEEE doubles of the source; nothing below reads a double's value. `MIN` and `MAX` are
those of `types.h`, `_a < _b ? _a : _b` and `_a > _b ? _a : _b`. `gsl_rng_uniform` is the draw
`target`. The headers that declare the two records are not in this tree; their fields are the
ones the functions read, and the arrays hold `n_arms` entries.

Both `SELECT_ARM`s ignore the mask. The havoc loop tests `mask[selected_case]` after the call, and
a masked pick jumps to `L_EXP_INVALID` and on to `L_EXP_INVALID_2`, which is inside the
no-discovery branch: the candidate is not run and the batch bandit is not rewarded, but `t` and
`pulls[selected_case]` have already been counted, and the arm then gets `ADD_REWARD(..., 0)`
(`exp_masked_pick_moves_selector`).
-/
namespace FuzzOne

/-! ## libm and `types.h` -/

end FuzzOne
