import Meshp.Nftables.Apply

/-!
# The Address Traffic Leaves From

A group may name an address that what it carries is to leave from, for somebody
who has allowlisted it elsewhere. What several groups carry is merged into one
set of prefixes for each family before a rule is written, and one verb rewrites
for all of them: the first address any group names that can be read, or none at
all. So a group's own address is used exactly when it is the first, and a group
that names none is masqueraded only when nobody names one.
-/

namespace Meshp.Nftables

open Base (bind_eq_ok)
open Netip (Addr parseAddr parsePrefix)
open Netfilter
open Wire (AdvertisedGroup)

variable {groups : List AdvertisedGroup} {g : AdvertisedGroup} {p : Packet}

variable {iface : String}

theorem forwardTables_rewrites {c : Carried} (h : carriedPrefixes groups = .ok c) (how : Rewrite) :
    Ruleset.rewrites (forwardTables iface groups c) p how =
      decide (rewriteFor iface groups p = some how) := by
  unfold forwardTables
  by_cases hnothing : c.Nothing
  · have hnone : rewriteFor iface groups p = none := by
      have hempty := (carriedPrefixes_nothing h).1 hnothing
      simp [rewriteFor, carriedTo, carriesDefault, someIn, hempty]
    rw [if_pos hnothing, hnone]
    rfl
  · rw [if_neg hnothing]
    simp only [Ruleset.rewrites, List.any_cons, List.any_nil, Bool.or_false,
      forwardTable_rewrites h]

def office : AdvertisedGroup where
  routeGroupId := "o"
  name := "office"
  prefixes := ["192.168.10.0/24"]
  stableEgressIp := "203.0.113.7"

end Meshp.Nftables
