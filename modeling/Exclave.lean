import Exclave.Unit
import Exclave.Event
import Exclave.Broadcaster.Basic
import Exclave.Broadcaster.Core
import Exclave.Broadcaster.Run
import Exclave.Broadcaster.Prune
import Exclave.Broadcaster.Receivers
import Exclave.Scenario.Description
import Exclave.Scenario.Order
import Exclave.Scenario.Select
import Exclave.Scenario.Resolver
import Exclave.Scenario.Pipeline
