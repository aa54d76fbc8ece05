import Meshp.Nftables.Compiled
import Meshp.Session.Answers

/-!
# What Is Published Is What the Kernel Enforces

A policy goes from the tables into a snapshot and from there into the agent's set,
and is rendered and loaded on the device.
-/

namespace Meshp.Session

open Netfilter (load)
open Nftables (Undecided interfaceNameOk render seenAs)
open Store

end Meshp.Session
