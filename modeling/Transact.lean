import Transact.Aggregation.Script
import Transact.Completion.Script
import Transact.Loop.Script
import Transact.Main
import Transact.Peer.Bench
import Transact.Proofs.Adversary.Basic
import Transact.Proofs.Client.Tables
import Transact.Script.Basic
import Transact.Proofs.Adversary.Ledger
import Transact.Proofs.Adversary.Begin
import Transact.Proofs.Adversary.Control
import Transact.Proofs.Adversary.Runs
import Transact.Proofs.Adversary.Hooks
import Transact.Proofs.Peer.Accord
import Transact.Proofs.Peer.Custody
import Transact.Proofs.Peer.Returns
import Transact.Proofs.Link.Runs
import Transact.Proofs.Sends.Runs
import Transact.Proofs.Sends.Refusals
import Transact.Proofs.Peer.Bookkeeping
import Transact.Proofs.Loop.Order
import Transact.Proofs.Loop.Forest
import Transact.Proofs.Completion.Settling
import Transact.Proofs.Adversary.Raising
import Transact.Proofs.Aggregation.Count
import Transact.Proofs.Scenario.Beginning
import Transact.Proofs.Scenario.Sending
import Transact.Proofs.Scenario.Ending
import Transact.Proofs.Scenario.Staging
import Transact.Proofs.Scenario.Taking
import Transact.Proofs.Scenario.Finishing
import Transact.Proofs.Scenario.Report
import Transact.Proofs.Isolation.Venues
import Transact.Proofs.Enrollment
import Transact.Proofs.Peer.Names
import Transact.Proofs.Presettling
import Transact.Proofs.Client.Reentry
import Transact.Proofs.Script
