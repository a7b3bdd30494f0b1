import FuzzOne.Basic
import FuzzOne.Adwin
import FuzzOne.Bandit
import FuzzOne.HavocCase
import FuzzOne.BranchMask
import FuzzOne.Havoc
import FuzzOne.HavocMask
import FuzzOne.HavocSize
import FuzzOne.RareBranch
import FuzzOne.RbTrim
import FuzzOne.Deterministic
import FuzzOne.Splice
import FuzzOne.ExpBandit
import FuzzOne.Redundancy
import FuzzOne.Probes
import FuzzOne.AutoTokens
import FuzzOne.InPlace
import FuzzOne.InPlaceSpec
import FuzzOne.Opening
import FuzzOne.HavocBudget
import FuzzOne.OpeningRuns
import FuzzOne.Call
import FuzzOne.QueueBook
import FuzzOne.ShadowPasses
